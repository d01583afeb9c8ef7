import BytecodeDebugger.Proofs.Machine.Bytes
import Mathlib.Data.Nat.Digits.Lemmas

/-!
# Big-endian digits

Bytes as the digits of a number in base 256, the most significant one first.  `Bytes.bigEndian` is
the number that digits write, and `Bytes.bigEndianDigits` are the digits that write a number
(`Bytes.bigEndian_bigEndianDigits`, `Bytes.bigEndianDigits_bigEndian`).  A byte string is read as a
number in this way (`Bytes.toNat_eq_bigEndian`), and as the same number if it is read as a word and
is no longer than one (`Bytes.toNat_toWord_window`).
-/

namespace BytecodeDebugger.Bytes

/-- The number that digits in base 256 write, the most significant one first. -/
def bigEndian (digits : List UInt8) : Nat :=
  Nat.ofDigits 256 (digits.reverse.map UInt8.toNat)

/-- The last `size` digits of a number in base 256, the most significant one first. -/
def bigEndianDigits : Nat → Nat → List UInt8
  | 0, _ => []
  | size + 1, n => bigEndianDigits size (n / 256) ++ [UInt8.ofNat n]

theorem bigEndian_concat (digits : List UInt8) (last : UInt8) :
    bigEndian (digits ++ [last]) = bigEndian digits * 256 + last.toNat := by
  rw [bigEndian, List.reverse_append, List.reverse_singleton, List.singleton_append, List.map_cons,
    Nat.ofDigits_cons, bigEndian]
  omega

theorem bigEndian_lt (digits : List UInt8) : bigEndian digits < 256 ^ digits.length := by
  have hdigit : ∀ x ∈ digits.reverse.map UInt8.toNat, x < 256 := by
    intro x hx
    obtain ⟨digit, -, rfl⟩ := List.mem_map.mp hx
    exact digit.toNat_lt
  have hlt := Nat.ofDigits_lt_base_pow_length (by omega) hdigit
  rwa [List.length_map, List.length_reverse] at hlt

theorem length_bigEndianDigits (size n : Nat) : (bigEndianDigits size n).length = size := by
  induction size generalizing n with
  | zero => rfl
  | succ size ih => rw [bigEndianDigits, List.length_append, ih, List.length_singleton]

/-- **The digits of a number write it**, as far as there are digits. -/
theorem bigEndian_bigEndianDigits (size n : Nat) :
    bigEndian (bigEndianDigits size n) = n % 256 ^ size := by
  induction size generalizing n with
  | zero => rw [Nat.pow_zero, Nat.mod_one]; rfl
  | succ size ih =>
    have hpow : 256 ^ (size + 1) = 256 * 256 ^ size := Nat.pow_succ'
    rw [bigEndianDigits, bigEndian_concat, ih, UInt8.toNat_ofNat', hpow, Nat.mod_mul]
    omega

/-- **Digits are those of the number that they write.** -/
theorem bigEndianDigits_bigEndian (digits : List UInt8) :
    bigEndianDigits digits.length (bigEndian digits) = digits := by
  induction digits using List.reverseRecOn with
  | nil => rfl
  | append_singleton digits last ih =>
    have hlast := last.toNat_lt
    have hfront : (bigEndian digits * 256 + last.toNat) / 256 = bigEndian digits := by omega
    have hdigit : UInt8.ofNat (bigEndian digits * 256 + last.toNat) = last := by
      rw [← UInt8.toNat_inj, UInt8.toNat_ofNat']
      omega
    rw [List.length_append, List.length_singleton, bigEndianDigits, bigEndian_concat, hfront, ih,
      hdigit]

/-- Zeros in front write nothing. -/
theorem bigEndian_replicate_append (zeros : Nat) (digits : List UInt8) :
    bigEndian (List.replicate zeros 0 ++ digits) = bigEndian digits := by
  have hzeros : bigEndian (List.replicate zeros 0) = 0 := by
    induction zeros with
    | zero => rfl
    | succ zeros ih => rw [List.replicate_succ', bigEndian_concat, ih]; rfl
  induction digits using List.reverseRecOn with
  | nil => rw [List.append_nil, hzeros]; rfl
  | append_singleton digits last ih =>
    rw [← List.append_assoc, bigEndian_concat, bigEndian_concat, ih]

/-- The digits of a number that fewer digits write have zeros in front. -/
theorem bigEndianDigits_of_le {size : Nat} {digits : List UInt8} (h : digits.length ≤ size) :
    bigEndianDigits size (bigEndian digits) =
      List.replicate (size - digits.length) 0 ++ digits := by
  have hpadded := bigEndianDigits_bigEndian (List.replicate (size - digits.length) 0 ++ digits)
  rwa [bigEndian_replicate_append, List.length_append, List.length_replicate,
    Nat.sub_add_cancel h] at hpadded

/-- A digit counted from the front. -/
theorem getElem?_bigEndianDigits {size i : Nat} (hi : i < size) (n : Nat) :
    (bigEndianDigits size n)[i]? = some (UInt8.ofNat (n / 256 ^ (size - 1 - i))) := by
  induction size generalizing n with
  | zero => omega
  | succ size ih =>
    rw [bigEndianDigits]
    by_cases hlast : i < size
    · have hpow : 256 * 256 ^ (size - 1 - i) = 256 ^ (size + 1 - 1 - i) := by
        rw [← Nat.pow_succ', show (size - 1 - i).succ = size + 1 - 1 - i by omega]
      rw [List.getElem?_append_left (by rwa [length_bigEndianDigits]), ih hlast,
        Nat.div_div_eq_div_mul, hpow]
    · obtain rfl : i = size := by omega
      rw [List.getElem?_append_right (by rw [length_bigEndianDigits]), length_bigEndianDigits]
      simp

/-- **The bytes of a word** are its digits. -/
theorem toList_ofWord (word : Word) : (ofWord word).data.toList = bigEndianDigits 8 word.toNat := by
  refine List.ext_getElem? fun i => ?_
  by_cases hi : i < 8
  · rw [getElem?_bigEndianDigits hi, ← byteAt_ofWord word hi]
    interval_cases i
    all_goals rfl
  · rw [List.getElem?_eq_none, List.getElem?_eq_none]
    · rw [length_bigEndianDigits]; omega
    · exact Nat.le_of_not_lt hi

theorem toNat_eq_bigEndian (bytes : ByteArray) : toNat bytes = bigEndian bytes.data.toList := by
  rw [toNat_eq_foldl]
  -- A digit at the end multiplies what the others write by 256, so the induction is from there.
  induction bytes.data.toList using List.reverseRecOn with
  | nil => rfl
  | append_singleton digits last ih =>
    rw [List.foldl_append, ih, bigEndian_concat]
    rfl

/-- Up to eight bytes are read as the word that is the number that they write. -/
theorem toNat_toWord_of_size_le {bytes : ByteArray} (hsize : bytes.size ≤ 8) :
    (toWord bytes).toNat = bigEndian bytes.data.toList := by
  have hlt := bigEndian_lt bytes.data.toList
  have hpow : 256 ^ bytes.data.toList.length ≤ 256 ^ 8 := Nat.pow_le_pow_right (by omega) hsize
  rw [toNat_toWord, toNat_eq_bigEndian, Nat.mod_eq_of_lt (by omega)]

/-- **A window of at most eight bytes as a word** is the number that its bytes write, with zeros for
those beyond the end. -/
theorem toNat_toWord_window (bytes : ByteArray) (offset : Nat) {size : Nat} (hsize : size ≤ 8) :
    (toWord (window bytes offset size)).toNat =
      bigEndian ((bytes.data.toList.drop offset).take size ++
        List.replicate (size - ((bytes.data.toList.drop offset).take size).length) 0) := by
  have hwindow : (window bytes offset size).size ≤ 8 := by rwa [size_window]
  rw [toNat_toWord_of_size_le hwindow, toList_window]

end BytecodeDebugger.Bytes
