import BytecodeDebugger.Bytes
import Mathlib.Algebra.BigOperators.Fin
import Mathlib.Tactic.IntervalCases

/-!
# Byte strings as functions

A byte string is known by its size and by what `Bytes.byteAt` says of it (`Bytes.ext_byteAt`).  The
operations on byte strings have one lemma each for the two: `Bytes.size_window` and
`Bytes.byteAt_window`, `Bytes.size_splice` and `Bytes.byteAt_splice`, and so on.  Some have another
one for the list of the bytes (`Bytes.toList_window`).

Numbers and words are written in base 256, most significant digit first (`Bytes.toNat_eq_sum`,
`Bytes.toNat_toWord`, `Bytes.byteAt_ofWord`).
-/

namespace BytecodeDebugger.Bytes

variable {bytes data : ByteArray} {offset size i : Nat}

/-! ### One byte -/

theorem byteAt_eq_data (bytes : ByteArray) (i : Nat) : byteAt bytes i = bytes.data[i]?.getD 0 :=
  rfl

theorem byteAt_of_size_le (h : bytes.size ≤ i) : byteAt bytes i = 0 := by
  rw [byteAt_eq_data, Array.getElem?_eq_none h, Option.getD_none]

theorem byteAt_of_lt (h : i < bytes.size) : byteAt bytes i = bytes[i] := by
  rw [byteAt, getElem?_pos bytes i h, Option.getD_some]

/-- Byte strings of the same size are equal if their bytes are. -/
theorem ext_byteAt (hsize : bytes.size = data.size)
    (h : ∀ i < bytes.size, byteAt bytes i = byteAt data i) : bytes = data := by
  refine ByteArray.ext_getElem hsize fun i hi hi' => ?_
  rw [← byteAt_of_lt hi, ← byteAt_of_lt hi']
  exact h i hi

/-! ### Ranges -/

theorem size_zeros (size : Nat) : (zeros size).size = size :=
  Array.size_replicate

theorem byteAt_zeros (size i : Nat) : byteAt (zeros size) i = 0 := by
  by_cases h : i < size
  · rw [byteAt_eq_data, zeros, Array.getElem?_replicate, if_pos h, Option.getD_some]
  · exact byteAt_of_size_le (by rw [size_zeros]; omega)

theorem byteAt_append (bytes data : ByteArray) (i : Nat) : byteAt (bytes ++ data) i =
    if i < bytes.size then byteAt bytes i else byteAt data (i - bytes.size) := by
  rw [byteAt_eq_data, ByteArray.data_append, Array.getElem?_append]
  show (if i < bytes.size then _ else _ : Option UInt8).getD 0 = _
  split_ifs <;> rfl

theorem byteAt_extract (bytes : ByteArray) (start stop i : Nat) :
    byteAt (bytes.extract start stop) i =
      if i < min stop bytes.size - start then byteAt bytes (start + i) else 0 := by
  rw [byteAt_eq_data, ByteArray.data_extract, Array.getElem?_extract]
  show (if i < min stop bytes.size - start then _ else _ : Option UInt8).getD 0 = _
  split_ifs <;> rfl

theorem size_extendTo (bytes : ByteArray) (size : Nat) :
    (extendTo bytes size).size = max bytes.size size := by
  rw [extendTo]
  split_ifs with h
  · rw [ByteArray.size_append, size_zeros]
    omega
  · omega

/-- Zeros at the end show nowhere. -/
theorem byteAt_extendTo (bytes : ByteArray) (size i : Nat) :
    byteAt (extendTo bytes size) i = byteAt bytes i := by
  rw [extendTo]
  split_ifs with h
  · rw [byteAt_append, byteAt_zeros]
    split_ifs with hi
    · rfl
    · exact (byteAt_of_size_le (Nat.le_of_not_lt hi)).symm
  · rfl

theorem size_window (bytes : ByteArray) (offset size : Nat) :
    (window bytes offset size).size = size := by
  rw [window, size_extendTo, ByteArray.size_extract]
  omega

/-- A window shows the bytes of its range. -/
theorem byteAt_window (bytes : ByteArray) (offset size i : Nat) :
    byteAt (window bytes offset size) i = if i < size then byteAt bytes (offset + i) else 0 := by
  rw [window, byteAt_extendTo, byteAt_extract]
  by_cases hend : offset + i < bytes.size
  · rw [show min offset bytes.size + i = offset + i by omega]
    refine if_congr ?_ rfl rfl
    omega
  · -- Both sides are zero beyond the end.
    rw [if_neg (by omega), byteAt_of_size_le (Nat.le_of_not_lt hend), ite_self]

theorem getElem?_window (h : i < size) :
    (window bytes offset size)[i]? = some (byteAt bytes (offset + i)) := by
  have hi : i < (window bytes offset size).size := by rwa [size_window]
  rw [getElem?_pos _ i hi, ← byteAt_of_lt hi, byteAt_window, if_pos h]

/-- Beyond the end all windows are the same. -/
theorem window_congr_of_size_le {offset' : Nat} (h : bytes.size ≤ offset)
    (h' : bytes.size ≤ offset') (size : Nat) :
    window bytes offset size = window bytes offset' size := by
  refine ext_byteAt (by rw [size_window, size_window]) fun i _ => ?_
  rw [byteAt_window, byteAt_window, byteAt_of_size_le (by omega), byteAt_of_size_le (by omega)]

/-- A window is two smaller ones, one behind the other. -/
theorem window_add (bytes : ByteArray) (offset m n : Nat) :
    window bytes offset (m + n) = window bytes offset m ++ window bytes (offset + m) n := by
  refine ext_byteAt ?_ fun i hi => ?_
  · rw [ByteArray.size_append, size_window, size_window, size_window]
  · rw [size_window] at hi
    rw [byteAt_append, size_window, byteAt_window, byteAt_window, byteAt_window, if_pos hi]
    by_cases hfirst : i < m
    · rw [if_pos hfirst, if_pos hfirst]
    · rw [if_neg hfirst, if_pos (by omega), show offset + m + (i - m) = offset + i by omega]

/-- A slice that lies inside the string is the window there. -/
theorem slice?_eq_window (h : offset + size ≤ bytes.size) :
    slice? bytes offset (offset + size) = some (window bytes offset size) := by
  rw [slice?, if_pos ⟨Nat.le_add_right offset size, h⟩]
  refine congrArg some (ext_byteAt ?_ fun i hi => ?_)
  · rw [size_window, ByteArray.size_extract]
    omega
  · rw [ByteArray.size_extract] at hi
    rw [byteAt_window, byteAt_extract, if_pos (by omega), if_pos (by omega)]

/-- To splice is to put together what is before the range, the range and what is after it. -/
theorem splice_eq_append (bytes : ByteArray) (offset : Nat) (data : ByteArray) :
    splice bytes offset data =
      bytes.extract 0 offset ++ data ++ bytes.extract (offset + data.size) bytes.size := by
  have hwhole : data.data.extract 0 (0 + data.size) = data.data := by
    rw [Nat.zero_add]
    exact Array.extract_size
  have hlength : offset + min data.size (data.data.size - 0) = offset + data.size := by
    have hsize : data.data.size = data.size := rfl
    omega
  refine ByteArray.ext ?_
  rw [ByteArray.data_append, ByteArray.data_append, ByteArray.data_extract, ByteArray.data_extract]
  show bytes.data.extract 0 offset ++ data.data.extract 0 (0 + data.size) ++
    bytes.data.extract (offset + min data.size (data.data.size - 0)) = _
  rw [hwhole, hlength]
  rfl

theorem size_splice (h : offset + data.size ≤ bytes.size) :
    (splice bytes offset data).size = bytes.size := by
  rw [splice_eq_append, ByteArray.size_append, ByteArray.size_append, ByteArray.size_extract,
    ByteArray.size_extract]
  omega

/-- What is put into a string shows in its range, and nowhere else. -/
theorem byteAt_splice (h : offset + data.size ≤ bytes.size) (i : Nat) :
    byteAt (splice bytes offset data) i =
      if offset ≤ i ∧ i < offset + data.size then byteAt data (i - offset)
      else byteAt bytes i := by
  have hbefore : (bytes.extract 0 offset).size = offset := by
    rw [ByteArray.size_extract]
    omega
  rw [splice_eq_append, byteAt_append, byteAt_append, ByteArray.size_append, hbefore,
    byteAt_extract, byteAt_extract]
  by_cases hi : i < offset
  · rw [if_pos (by omega), if_pos hi, if_pos (by omega), if_neg (by omega), Nat.zero_add]
  · by_cases hend : i < offset + data.size
    · rw [if_pos hend, if_neg hi, if_pos ⟨by omega, hend⟩]
    · rw [if_neg hend, show offset + data.size + (i - (offset + data.size)) = i by omega,
        if_neg (c := offset ≤ i ∧ i < offset + data.size) (by omega)]
      split_ifs with hlast
      · rfl
      · exact (byteAt_of_size_le (by omega)).symm

/-! ### Ranges as lists -/

theorem length_toList (bytes : ByteArray) : bytes.data.toList.length = bytes.size :=
  Array.length_toList

theorem toList_extract (bytes : ByteArray) (start stop : Nat) :
    (bytes.extract start stop).data.toList =
      (bytes.data.toList.drop start).take (stop - start) := by
  rw [ByteArray.data_extract, Array.toList_extract, List.extract_eq_take_drop]

theorem toList_extendTo (bytes : ByteArray) (size : Nat) :
    (extendTo bytes size).data.toList =
      bytes.data.toList ++ List.replicate (size - bytes.size) 0 := by
  rw [extendTo]
  split_ifs with h
  · rw [ByteArray.data_append, Array.toList_append, zeros, Array.toList_replicate]
  · rw [Nat.sub_eq_zero_of_le (Nat.le_of_not_lt h), List.replicate_zero, List.append_nil]

/-- A window has the bytes of its range that are there, and zeros behind them. -/
theorem toList_window (bytes : ByteArray) (offset size : Nat) :
    (window bytes offset size).data.toList = (bytes.data.toList.drop offset).take size ++
      List.replicate (size - ((bytes.data.toList.drop offset).take size).length) 0 := by
  have hrange :
      (bytes.extract (min offset bytes.size) (min (offset + size) bytes.size)).data.toList =
        (bytes.data.toList.drop offset).take size := by
    rw [toList_extract]
    by_cases h : offset ≤ bytes.size
    · rw [Nat.min_eq_left h, List.take_eq_take_iff, List.length_drop, length_toList]
      omega
    · -- Nothing is left beyond the end.
      have hlength := length_toList bytes
      rw [List.drop_eq_nil_of_le (by omega), List.drop_eq_nil_of_le (by omega), List.take_nil,
        List.take_nil]
  rw [window, toList_extendTo, ← length_toList (bytes.extract _ _), hrange]

/-! ### Numbers and words -/

theorem toNat_eq_foldl (bytes : ByteArray) :
    toNat bytes = bytes.data.toList.foldl (fun n byte => n * 256 + byte.toNat) 0 := by
  rw [toNat, ← Array.foldl_toList]

/-- **The number that a byte string writes** has its bytes as digits, the most significant one
first. -/
theorem toNat_eq_sum (bytes : ByteArray) : toNat bytes =
    ∑ i ∈ Finset.range bytes.size, (byteAt bytes i).toNat * 256 ^ (bytes.size - 1 - i) := by
  suffices hall : ∀ digits : List UInt8, digits.foldl (fun n byte => n * 256 + byte.toNat) 0 =
      ∑ i ∈ Finset.range digits.length,
        (digits[i]?.getD 0).toNat * 256 ^ (digits.length - 1 - i) by
    have hdigits (i : Nat) : byteAt bytes i = bytes.data.toList[i]?.getD 0 := by
      rw [byteAt_eq_data, Array.getElem?_toList]
    simp only [toNat_eq_foldl, hdigits, hall, Array.length_toList]
    rfl
  -- A byte at the end multiplies what the others write by 256, so the induction is from there.
  intro digits
  induction digits using List.reverseRecOn with
  | nil => rfl
  | append_singleton digits last ih =>
    have hearlier : ∀ i ∈ Finset.range digits.length,
        ((digits ++ [last])[i]?.getD 0).toNat * 256 ^ (digits.length + 1 - 1 - i) =
          (digits[i]?.getD 0).toNat * 256 ^ (digits.length - 1 - i) * 256 := by
      intro i hi
      have hlt : i < digits.length := Finset.mem_range.mp hi
      rw [List.getElem?_append_left hlt, Nat.mul_assoc, ← Nat.pow_succ,
        show digits.length + 1 - 1 - i = (digits.length - 1 - i).succ by omega]
    have hlast : (digits ++ [last])[digits.length]?.getD 0 = last := by
      rw [List.getElem?_append_right (Nat.le_refl _), Nat.sub_self]
      rfl
    rw [List.foldl_append, ih, List.length_append, List.length_singleton, Finset.sum_range_succ,
      Finset.sum_congr rfl hearlier, ← Finset.sum_mul, hlast, Nat.add_sub_cancel, Nat.sub_self,
      Nat.pow_zero, Nat.mul_one]
    rfl

/-- One more byte of a word, of which the first is dropped if there is no room for it. -/
theorem toNat_shiftLeft_or (word : Word) (byte : UInt8) :
    (word <<< 8 ||| byte.toUInt64).toNat = (word.toNat * 256 + byte.toNat) % 2 ^ 64 := by
  have hbyte : byte.toNat < 2 ^ 8 := byte.toNat_lt
  have hshift : word.toNat <<< ((8 : UInt64).toNat % 64) % 2 ^ 64 =
      2 ^ 8 * (word.toNat % 2 ^ 56) := by
    show word.toNat <<< 8 % 2 ^ 64 = _
    rw [Nat.shiftLeft_eq]
    omega
  rw [UInt64.toNat_or, UInt64.toNat_shiftLeft, UInt8.toNat_toUInt64, hshift,
    ← Nat.two_pow_add_eq_or_of_lt hbyte]
  omega

/-- **A byte string as a word** is its number modulo `2 ^ 64`. -/
theorem toNat_toWord (bytes : ByteArray) : (toWord bytes).toNat = toNat bytes % 2 ^ 64 := by
  rw [toNat_eq_foldl, toWord, ← Array.foldl_toList]
  generalize bytes.data.toList = list
  -- Any word will do that is the number so far modulo `2 ^ 64`.
  suffices hall : ∀ (word : Word) (n : Nat), word.toNat = n % 2 ^ 64 →
      (list.foldl (fun (word : Word) (byte : UInt8) => word <<< 8 ||| byte.toUInt64) word).toNat =
        list.foldl (fun n byte => n * 256 + byte.toNat) n % 2 ^ 64 from hall 0 0 rfl
  induction list with
  | nil => exact fun word n h => h
  | cons byte list ih =>
    intro word n h
    rw [List.foldl_cons, List.foldl_cons]
    refine ih _ _ ?_
    rw [toNat_shiftLeft_or, h]
    omega

theorem toUInt8_shiftRight (word : Word) {k : Nat} (hk : k < 8) :
    (word >>> UInt64.ofNat (8 * k)).toUInt8 = UInt8.ofNat (word.toNat / 256 ^ k) := by
  have hshift : (UInt64.ofNat (8 * k)).toNat % 64 = 8 * k := by
    have hlt : 8 * k < 2 ^ 64 := by omega
    rw [UInt64.toNat_ofNat_of_lt' hlt]
    omega
  have hpow : 2 ^ (8 * k) = 256 ^ k := Nat.pow_mul 2 8 k
  rw [← UInt8.toNat_inj, UInt64.toNat_toUInt8, UInt64.toNat_shiftRight, hshift,
    Nat.shiftRight_eq_div_pow, hpow, UInt8.toNat_ofNat']

/-- **The bytes of a word** are its digits in base 256, the most significant one first. -/
theorem byteAt_ofWord (word : Word) (hi : i < 8) :
    byteAt (ofWord word) i = UInt8.ofNat (word.toNat / 256 ^ (7 - i)) := by
  rw [← toUInt8_shiftRight word (by omega)]
  interval_cases i
  all_goals rfl

end BytecodeDebugger.Bytes
