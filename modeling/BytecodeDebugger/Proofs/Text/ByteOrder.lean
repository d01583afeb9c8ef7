import Mathlib.Tactic.SplitIfs

/-!
# The byte order of texts

Texts are compared character by character, and so they are compared byte by byte: in UTF-8 a
character with a greater code point has greater bytes, whatever follows (`append_lt_append_of_lt`).
So one order serves for both (`Text.bytes_lt_bytes_iff`, `Text.bytes_le_bytes_iff`).
-/

namespace BytecodeDebugger.Text

/-- The bytes of a text in UTF-8. -/
def bytes (s : String) : List UInt8 :=
  s.toUTF8.data.toList

theorem bytes_eq_flatMap (s : String) : bytes s = s.toList.flatMap String.utf8EncodeChar := by
  have hbytes : s.toUTF8 = (s.toList.flatMap String.utf8EncodeChar).toByteArray := by
    show s.toByteArray = s.toList.utf8Encode
    rw [← String.toByteArray_ofList, String.ofList_toList]
  rw [bytes, hbytes, List.data_toByteArray]

/-- Bytes that come from numbers below 256 are ordered as the numbers are. -/
theorem ofNat_lt_ofNat {m n : Nat} (hm : m < 256) (hn : n < 256) :
    UInt8.ofNat m < UInt8.ofNat n ↔ m < n := by
  rw [UInt8.lt_iff_toNat_lt, UInt8.toNat_ofNat_of_lt' hm, UInt8.toNat_ofNat_of_lt' hn]

theorem ofNat_inj {m n : Nat} (hm : m < 256) (hn : n < 256) :
    UInt8.ofNat m = UInt8.ofNat n ↔ m = n := by
  rw [← UInt8.toNat_inj, UInt8.toNat_ofNat_of_lt' hm, UInt8.toNat_ofNat_of_lt' hn]

theorem toNat_val_lt (c : Char) : c.val.toNat < 0x110000 := by
  have hvalid := c.valid
  simp only [UInt32.isValidChar, Nat.isValidChar] at hvalid
  omega

/-- **The greater character has the greater bytes**, whatever comes after the two.  The first byte
of a longer encoding is greater than that of a shorter one, and in encodings of one length the bytes
are the digits of the code points. -/
theorem append_lt_append_of_lt {c d : Char} (h : c < d) (rest rest' : List UInt8) :
    String.utf8EncodeChar c ++ rest < String.utf8EncodeChar d ++ rest' := by
  have hlt : c.val.toNat < d.val.toNat := h
  have hd := toNat_val_lt d
  unfold String.utf8EncodeChar
  simp only
  generalize c.val.toNat = m at hlt ⊢
  generalize d.val.toNat = n at hlt hd ⊢
  -- The first of four digits has room in its byte.
  have hm : m / 262144 % 8 = m / 262144 := by omega
  have hn : n / 262144 % 8 = n / 262144 := by omega
  split_ifs
  -- The second encoding is not the shorter one, as the code points would be the other way round.
  all_goals first
    | omega
    | simp (disch := omega) only [List.cons_append, List.cons_lt_cons_iff, ofNat_lt_ofNat,
        ofNat_inj]
      omega

/-- The first characters that differ decide on the bytes too. -/
theorem flatMap_lt_flatMap {cs ds : List Char} (h : cs < ds) :
    cs.flatMap String.utf8EncodeChar < ds.flatMap String.utf8EncodeChar := by
  induction cs generalizing ds with
  | nil =>
    cases ds with
    | nil => exact absurd h (List.lt_irrefl [])
    | cons d ds =>
      obtain ⟨byte, bytes, hd⟩ := List.exists_cons_of_ne_nil (String.utf8EncodeChar_ne_nil (c := d))
      rw [List.flatMap_nil, List.flatMap_cons, hd]
      exact List.nil_lt_cons _ _
  | cons c cs ih =>
    cases ds with
    | nil => exact absurd h (List.not_lt_nil _)
    | cons d ds =>
      rw [List.flatMap_cons, List.flatMap_cons]
      rcases List.cons_lt_cons_iff.mp h with hlt | ⟨rfl, hlt⟩
      · exact append_lt_append_of_lt hlt _ _
      · exact List.append_left_lt (ih hlt)

theorem bytes_lt_bytes {s t : String} (h : s < t) : bytes s < bytes t := by
  rw [bytes_eq_flatMap, bytes_eq_flatMap]
  exact flatMap_lt_flatMap h

/-- **Texts are in the order of their bytes.** -/
theorem bytes_lt_bytes_iff {s t : String} : bytes s < bytes t ↔ s < t := by
  constructor
  · intro h
    rcases Std.lt_trichotomy s t with hlt | heq | hlt
    · exact hlt
    · rw [heq] at h
      exact absurd h (List.lt_irrefl _)
    · exact absurd h (List.lt_asymm (bytes_lt_bytes hlt))
  · exact bytes_lt_bytes

theorem bytes_le_bytes_iff {s t : String} : bytes s ≤ bytes t ↔ s ≤ t :=
  not_congr bytes_lt_bytes_iff

end BytecodeDebugger.Text
