import BytecodeDebugger.Proofs.Machine.BigEndian
import BytecodeDebugger.Proofs.Text.Numeral
import BytecodeDebugger.Text.Hex

/-!
# What hexadecimal texts write

A text is read as a byte string if the characters that count are pairs of digits, and the byte
string is the one that these digits write (`Hex.decode_eq_ok_iff`).  One thing is let through
besides: a pair is read as a numeral, so its first character may be a sign, and then it counts as a
zero (`Hex.unsigned`).

A byte string is read back from all its renderings (`Hex.decode_of_renders`).  A number in
hexadecimal, up to an even width, has the digits of its bytes (`Hex.toList_padded`).
-/

namespace BytecodeDebugger.Text.Hex

variable {s : String} {c high low : Char} {cs : List Char} {value : Nat} {read bytes : ByteArray}

/-! ### Digits -/

/-- A hexadecimal digit, of either case. -/
def IsDigit (c : Char) : Prop :=
  '0' ≤ c ∧ c ≤ '9' ∨ 'a' ≤ c ∧ c ≤ 'f' ∨ 'A' ≤ c ∧ c ≤ 'F'

instance (c : Char) : Decidable (IsDigit c) :=
  inferInstanceAs (Decidable ('0' ≤ c ∧ c ≤ '9' ∨ 'a' ≤ c ∧ c ≤ 'f' ∨ 'A' ≤ c ∧ c ≤ 'F'))

theorem isDigit_iff : IsDigit c ↔ ∃ d, Base.hexadecimal.digit? c = some d := by
  rw [IsDigit, Base.digit?]
  split_ifs <;> simp_all

theorem isDigit_iff_lower : IsDigit c ↔ ∃ d < 16, c.toLower = Nat.digitChar d := by
  rw [isDigit_iff]
  simp only [Base.digit?_eq_some_iff]
  rfl

theorem div_sixteen_lt (byte : UInt8) : byte.toNat / 16 < 16 := by
  have hbyte := byte.toNat_lt
  omega

/-- The characters, with a zero in place of each sign that starts a pair. -/
def unsigned : List Char → List Char
  | high :: low :: cs => (if high = '+' then '0' else high) :: low :: unsigned cs
  | cs => cs

theorem length_unsigned (cs : List Char) : (unsigned cs).length = cs.length := by
  induction cs using unsigned.induct with
  | case1 high low cs ih => simp [unsigned, ih]
  | case2 cs hcs => rw [unsigned]; exact hcs

/-- Where there is no sign, nothing is replaced. -/
theorem unsigned_of_not_mem (h : '+' ∉ cs) : unsigned cs = cs := by
  induction cs using unsigned.induct with
  | case1 high low cs ih =>
    simp only [List.mem_cons, not_or] at h
    obtain ⟨hhigh, -, hcs⟩ := h
    rw [unsigned, if_neg (Ne.symm hhigh), ih hcs]
  | case2 cs hcs => rw [unsigned]; exact hcs

/-! ### Pairs -/

/-- Two characters with the digits of a byte. -/
theorem map_toLower_pair_eq_iff {byte : UInt8} :
    [high, low].map Char.toLower = byteDigits byte ↔
      Base.hexadecimal.digit? high = some (byte.toNat / 16) ∧
      Base.hexadecimal.digit? low = some (byte.toNat % 16) := by
  have hhigh : byte.toNat / 16 < 16 := div_sixteen_lt byte
  have hlow : byte.toNat % 16 < 16 := Nat.mod_lt _ (by omega)
  simp [byteDigits, Base.digit?_eq_some_iff, Base.radix, Base.lower, hhigh, hlow]

/-- Two digits, where a sign in front counts as a zero. -/
theorem readNumeral_pair_eq_ok_iff {limit : Nat} :
    readNumeral .hexadecimal limit [high, low] = .ok value ↔
      ∃ a b, Base.hexadecimal.digit? (if high = '+' then '0' else high) = some a ∧
        Base.hexadecimal.digit? low = some b ∧ value = a * 16 + b ∧ value ≤ limit := by
  rw [readNumeral_eq_ok_iff]
  split_ifs with hsign
  · have hzero : Base.hexadecimal.digit? '0' = some 0 := rfl
    constructor
    · rintro ⟨digits, -, rfl | heq, hwrites, hle⟩
      · exact absurd (by simp [hsign]) (hwrites.not_mem (digit?_plus _))
      · obtain rfl : [low] = digits := List.tail_eq_of_cons_eq heq
        exact ⟨0, value, hzero, Base.writes_singleton_iff.mp hwrites, by omega, hle⟩
    · rintro ⟨a, b, ha, hb, rfl, hle⟩
      obtain rfl : 0 = a := Option.some.inj (hzero.symm.trans ha)
      rw [Nat.zero_mul, Nat.zero_add] at hle ⊢
      exact ⟨[low], by simp, Or.inr (by rw [hsign]), Base.writes_singleton_iff.mpr hb, hle⟩
  · constructor
    · rintro ⟨digits, -, rfl | heq, hwrites, hle⟩
      · obtain ⟨a, b, ha, hb, rfl⟩ := Base.writes_pair_iff.mp hwrites
        exact ⟨a, b, ha, hb, rfl, hle⟩
      · exact absurd (List.head_eq_of_cons_eq heq) hsign
    · rintro ⟨a, b, ha, hb, rfl, hle⟩
      exact ⟨[high, low], by simp, Or.inl rfl, Base.writes_pair_iff.mpr ⟨a, b, ha, hb, rfl⟩, hle⟩

/-- Any two digits are those of a byte. -/
theorem exists_byte {a b : Nat} (ha : Base.hexadecimal.digit? high = some a)
    (hb : Base.hexadecimal.digit? low = some b) :
    ∃ byte : UInt8, byte.toNat = a * 16 + b ∧ [high, low].map Char.toLower = byteDigits byte := by
  have ha16 : a < 16 := (Base.digit?_eq_some_iff.mp ha).1
  have hb16 : b < 16 := (Base.digit?_eq_some_iff.mp hb).1
  have hlt : a * 16 + b < 256 := by omega
  have hbyte : (UInt8.ofNat (a * 16 + b)).toNat = a * 16 + b := UInt8.toNat_ofNat_of_lt' hlt
  refine ⟨UInt8.ofNat (a * 16 + b), hbyte, map_toLower_pair_eq_iff.mpr ⟨?_, ?_⟩⟩
  · rw [ha, hbyte]
    congr 1
    omega
  · rw [hb, hbyte]
    congr 1
    omega

/-- A pair is read as the byte that its two digits write. -/
theorem readPair_eq_ok_iff : readNumeral .hexadecimal 255 [high, low] = .ok value ↔
    ∃ byte : UInt8, value = byte.toNat ∧
      [if high = '+' then '0' else high, low].map Char.toLower = byteDigits byte := by
  rw [readNumeral_pair_eq_ok_iff]
  constructor
  · rintro ⟨a, b, ha, hb, rfl, -⟩
    obtain ⟨byte, hbyte, hpair⟩ := exists_byte ha hb
    exact ⟨byte, hbyte.symm, hpair⟩
  · rintro ⟨byte, rfl, hpair⟩
    obtain ⟨hhigh, hlow⟩ := map_toLower_pair_eq_iff.mp hpair
    have hbyte := byte.toNat_lt
    exact ⟨_, _, hhigh, hlow, by omega, by omega⟩

/-! ### Byte strings -/

theorem even_of_cons_cons (heven : (high :: low :: cs).length % 2 = 0) : cs.length % 2 = 0 := by
  rw [List.length_cons, List.length_cons] at heven
  omega

/-- Of an even number of characters with no pair in front there are none. -/
theorem eq_nil_of_even (heven : cs.length % 2 = 0)
    (h : ∀ high low cs', cs = high :: low :: cs' → False) : cs = [] := by
  match cs with
  | [] => rfl
  | [_] => simp at heven
  | high :: low :: cs' => exact (h high low cs' rfl).elim

/-- What starts with two digits are the digits of a byte and of others behind it. -/
theorem cons_cons_eq_encodeChars_iff {decoded : List UInt8} :
    high :: low :: cs = encodeChars decoded ↔
      ∃ byte rest, decoded = byte :: rest ∧ [high, low] = byteDigits byte ∧
        cs = encodeChars rest := by
  constructor
  · intro h
    cases decoded with
    | nil => cases h
    | cons byte rest =>
      have happend : [high, low] ++ cs = byteDigits byte ++ encodeChars rest := h
      obtain ⟨hpair, hcs⟩ := List.append_inj happend rfl
      exact ⟨byte, rest, rfl, hpair, hcs⟩
  · rintro ⟨byte, rest, rfl, hpair, rfl⟩
    have happend : [high, low] ++ encodeChars rest = byteDigits byte ++ encodeChars rest := by
      rw [hpair]
    exact happend

theorem length_encodeChars (decoded : List UInt8) :
    (encodeChars decoded).length = 2 * decoded.length := by
  induction decoded with
  | nil => rfl
  | cons byte decoded ih =>
    rw [encodeChars, List.flatMap_cons, List.length_append, ← encodeChars, ih, List.length_cons]
    exact Nat.add_comm 2 _

theorem encodeChars_eq_nil_iff {decoded : List UInt8} :
    encodeChars decoded = [] ↔ decoded = [] := by
  rw [← List.length_eq_zero_iff, length_encodeChars, ← List.length_eq_zero_iff]
  omega

/-- The digits of byte strings are any even number of digits. -/
theorem exists_encodeChars_iff : (∃ decoded, cs.map Char.toLower = encodeChars decoded) ↔
    cs.length % 2 = 0 ∧ ∀ c ∈ cs, IsDigit c := by
  constructor
  · rintro ⟨decoded, h⟩
    have hlength := congrArg List.length h
    rw [List.length_map, length_encodeChars] at hlength
    refine ⟨by omega, fun c hc => ?_⟩
    have hlower : c.toLower ∈ encodeChars decoded := h ▸ List.mem_map_of_mem hc
    obtain ⟨byte, -, hbyte⟩ := List.mem_flatMap.mp hlower
    have hhigh : byte.toNat / 16 < 16 := div_sixteen_lt byte
    have hlow : byte.toNat % 16 < 16 := Nat.mod_lt _ (by omega)
    rw [isDigit_iff_lower]
    rcases List.mem_pair.mp hbyte with hc | hc
    · exact ⟨_, hhigh, hc⟩
    · exact ⟨_, hlow, hc⟩
  · rintro ⟨heven, hdigits⟩
    induction cs using unsigned.induct with
    | case1 high low cs ih =>
      simp only [List.forall_mem_cons] at hdigits
      obtain ⟨hhigh, hlow, hcs⟩ := hdigits
      obtain ⟨a, ha⟩ := isDigit_iff.mp hhigh
      obtain ⟨b, hb⟩ := isDigit_iff.mp hlow
      obtain ⟨byte, -, hpair⟩ := exists_byte ha hb
      have heven' : cs.length % 2 = 0 := even_of_cons_cons heven
      obtain ⟨rest, hrest⟩ := ih heven' hcs
      exact ⟨byte :: rest, cons_cons_eq_encodeChars_iff.mpr ⟨byte, rest, rfl, hpair, hrest⟩⟩
    | case2 cs hcs =>
      rw [eq_nil_of_even heven hcs]
      exact ⟨[], rfl⟩

theorem toList_push (read : ByteArray) (byte : UInt8) :
    (read.push byte).data.toList = read.data.toList ++ [byte] :=
  Array.toList_push

/-- Pairs are read as the bytes that they write, behind those already read. -/
theorem decodePairs_eq_ok_iff (heven : cs.length % 2 = 0) : decodePairs read cs = .ok bytes ↔
    ∃ decoded, bytes.data.toList = read.data.toList ++ decoded ∧
      (unsigned cs).map Char.toLower = encodeChars decoded := by
  induction cs using unsigned.induct generalizing read with
  | case1 high low cs ih =>
    have heven' : cs.length % 2 = 0 := even_of_cons_cons heven
    rw [unsigned, List.map_cons, List.map_cons, decodePairs]
    simp only [cons_cons_eq_encodeChars_iff]
    split
    next value hvalue =>
      rw [ih heven', toList_push]
      obtain ⟨byte, rfl, hpair⟩ := readPair_eq_ok_iff.mp hvalue
      rw [UInt8.ofNat_toNat]
      constructor
      · rintro ⟨decoded, hbytes, hcs⟩
        exact ⟨byte :: decoded, by simpa using hbytes, byte, decoded, rfl, hpair, hcs⟩
      · rintro ⟨_, hbytes, byte', rest, rfl, hpair', hcs⟩
        rw [readPair_eq_ok_iff.mpr ⟨byte', rfl, hpair'⟩, Except.ok.injEq, UInt8.toNat_inj] at hvalue
        exact ⟨rest, by simpa [hvalue] using hbytes, hcs⟩
    next fault hfault =>
      constructor
      · intro h
        cases h
      · rintro ⟨_, -, byte, rest, -, hpair, -⟩
        rw [readPair_eq_ok_iff.mpr ⟨byte, rfl, hpair⟩] at hfault
        cases hfault
  | case2 cs hcs =>
    obtain rfl : cs = [] := eq_nil_of_even heven hcs
    rw [decodePairs, Except.ok.injEq]
    · constructor
      · rintro rfl
        exact ⟨[], by simp, rfl⟩
      · rintro ⟨decoded, hbytes, hnil⟩
        obtain rfl : decoded = [] := encodeChars_eq_nil_iff.mp hnil.symm
        rw [List.append_nil] at hbytes
        exact ByteArray.ext (Array.ext' hbytes.symm)
    · exact hcs

/-! ### Texts -/

/-- **The byte strings that texts write**: a text is read as the byte string whose digits are the
characters that count, with letters of either case and a zero in place of a sign at the start of a
pair. -/
theorem decode_eq_ok_iff : decode s = .ok bytes ↔
    (unsigned (significant s)).map Char.toLower = encodeChars bytes.data.toList := by
  rw [decode]
  split_ifs with heven
  · rw [decodePairs_eq_ok_iff heven]
    simp
  · constructor
    · intro h
      cases h
    · intro h
      have hlength := congrArg List.length h
      rw [List.length_map, length_unsigned, length_encodeChars] at hlength
      omega

/-- A text is read if what counts is an even number of digits. -/
theorem exists_decode_eq_ok_iff : (∃ bytes, decode s = .ok bytes) ↔
    (significant s).length % 2 = 0 ∧ ∀ c ∈ unsigned (significant s), IsDigit c := by
  rw [← length_unsigned, ← exists_encodeChars_iff]
  simp only [decode_eq_ok_iff]
  constructor
  · rintro ⟨bytes, h⟩
    exact ⟨_, h⟩
  · rintro ⟨decoded, h⟩
    exact ⟨⟨decoded.toArray⟩, h⟩

/-- **What is read as a byte string**: an even number of digits, and the byte string is then the one
with these digits in lower case.  So texts with different digits write different byte strings.

A sign at the start of a pair is let through besides, as a zero; this makes no difference to a text
without signs. -/
theorem decode_accepts (s : String) :
    ((∃ bytes, decode s = .ok bytes) ↔
      (significant s).length % 2 = 0 ∧ ∀ c ∈ unsigned (significant s), IsDigit c) ∧
    (∀ bytes, decode s = .ok bytes →
      (encode bytes).toList = (unsigned (significant s)).map Char.toLower) ∧
    (∀ s' bytes, decode s = .ok bytes → decode s' = .ok bytes →
      (unsigned (significant s)).map Char.toLower =
        (unsigned (significant s')).map Char.toLower) ∧
    ('+' ∉ significant s →
      ((∃ bytes, decode s = .ok bytes) ↔
        (significant s).length % 2 = 0 ∧ ∀ c ∈ significant s, IsDigit c) ∧
      ∀ bytes, decode s = .ok bytes →
        (encode bytes).toList = (significant s).map Char.toLower) := by
  have haccepts := exists_decode_eq_ok_iff (s := s)
  have hencode {bytes : ByteArray} (h : decode s = .ok bytes) :
      (encode bytes).toList = (unsigned (significant s)).map Char.toLower := by
    rw [decode_eq_ok_iff.mp h, encode, String.toList_ofList]
  refine ⟨haccepts, fun bytes => hencode, fun s' bytes h h' => ?_, fun hsign => ?_⟩
  · rw [decode_eq_ok_iff.mp h, decode_eq_ok_iff.mp h']
  · rw [unsigned_of_not_mem hsign] at haccepts hencode
    exact ⟨haccepts, fun bytes => hencode⟩

/-- Spaces do not count, and a letter comes back in lower case. -/
theorem decode_accepts_spaced : decode " 0x60 aB" = .ok ⟨#[0x60, 0xab]⟩ ∧
    (encode ⟨#[0x60, 0xab]⟩).toList = (significant " 0x60 aB").map Char.toLower := by
  have hread : decode " 0x60 aB" = .ok ⟨#[0x60, 0xab]⟩ := by decide
  have hsign : '+' ∉ significant " 0x60 aB" := by decide
  obtain ⟨-, hencode⟩ := (decode_accepts " 0x60 aB").2.2.2 hsign
  exact ⟨hread, hencode _ hread⟩

/-- A sign is no digit, but a pair that starts with one is read. -/
theorem not_decode_strict : ¬ ∀ s : String, (∃ bytes, decode s = .ok bytes) →
    ∀ c ∈ significant s, IsDigit c := by
  intro h
  have hread : decode "+f" = .ok ⟨#[0x0f]⟩ := by decide
  have hsign : '+' ∈ significant "+f" := by decide
  exact absurd (h "+f" ⟨_, hread⟩ '+' hsign) (by decide)

/-! ### The digits of byte strings -/

theorem map_toLower_encodeChars (decoded : List UInt8) :
    (encodeChars decoded).map Char.toLower = encodeChars decoded := by
  have hlower {d : Nat} (hd : d < Base.hexadecimal.radix) :
      (Nat.digitChar d).toLower = Nat.digitChar d := Base.lower_digitChar hd
  have hbyte (byte : UInt8) : (byteDigits byte).map Char.toLower = byteDigits byte := by
    have hlow : byte.toNat % 16 < 16 := Nat.mod_lt _ (by omega)
    rw [byteDigits, List.map_cons, List.map_singleton, hlower (div_sixteen_lt byte), hlower hlow]
  rw [encodeChars, List.map_flatMap]
  simp only [hbyte]

/-- The digits of a byte string write the number that its bytes write. -/
theorem writes_encodeChars (decoded : List UInt8) :
    Base.hexadecimal.Writes (encodeChars decoded) (Bytes.bigEndian decoded) := by
  induction decoded using List.reverseRecOn with
  | nil => exact .nil
  | append_singleton decoded last ih =>
    have hhigh : last.toNat / 16 < 16 := div_sixteen_lt last
    have hlow : last.toNat % 16 < 16 := Nat.mod_lt _ (by omega)
    have hwrites := (ih.concat (Base.digit?_digitChar hhigh)).concat (Base.digit?_digitChar hlow)
    have hvalue : (Bytes.bigEndian decoded * 16 + last.toNat / 16) * 16 + last.toNat % 16 =
        Bytes.bigEndian (decoded ++ [last]) := by
      rw [Bytes.bigEndian_concat]
      omega
    rw [← hvalue, encodeChars, List.flatMap_append, List.flatMap_singleton, byteDigits]
    rwa [List.append_assoc] at hwrites

/-- **A number in hexadecimal** up to the width of its bytes has their digits. -/
theorem toList_padded {size n : Nat} (hsize : 0 < size) (hn : n < 256 ^ size) :
    (padded (2 * size) n).toList = encodeChars (Bytes.bigEndianDigits size n) := by
  have hwidth : (digits n).length ≤ 2 * size := by
    refine Nat.toDigits_length 16 n (2 * size) (by omega) ?_
    rwa [Nat.pow_mul]
  rw [padded, String.toList_ofList]
  generalize hprinted : List.replicate (2 * size - (digits n).length) '0' ++ digits n = printed
  have hlength : printed.length = 2 * size := by
    rw [← hprinted, List.length_append, List.length_replicate]
    omega
  have hwrites : Base.hexadecimal.Writes printed n :=
    hprinted ▸ Base.writes_toDigits .hexadecimal _ n
  have hlower : printed.map Char.toLower = printed :=
    hprinted ▸ Base.map_lower_replicate_toDigits .hexadecimal _ n
  -- An even number of digits are those of some bytes, and these bytes write the same number.
  obtain ⟨decoded, hdecoded⟩ : ∃ decoded, printed.map Char.toLower = encodeChars decoded :=
    exists_encodeChars_iff.mpr ⟨by omega, fun c hc => isDigit_iff.mpr (hwrites.exists_digit hc)⟩
  rw [hlower] at hdecoded
  have hsize' : decoded.length = size := by
    rw [hdecoded, length_encodeChars] at hlength
    omega
  have hvalue : Bytes.bigEndian decoded = n :=
    (writes_encodeChars decoded).unique (hdecoded ▸ hwrites)
  rw [← hsize', ← hvalue, Bytes.bigEndianDigits_bigEndian, hdecoded]

/-! ### Renderings -/

/-- The characters are the digits of a byte string, with letters of either case and white space
anywhere. -/
def Spells (bytes : ByteArray) (cs : List Char) : Prop :=
  (cs.filter fun c => !isBlank c).map Char.toLower = encodeChars bytes.data.toList

/-- A text renders a byte string: it spells the digits, behind a mark or without one. -/
inductive Renders (bytes : ByteArray) : List Char → Prop
  | bare {cs : List Char} (h : Spells bytes cs) : Renders bytes cs
  | marked {gap cs : List Char} {x : Char} (hgap : Blank gap) (hx : x = 'x' ∨ x = 'X')
      (h : Spells bytes cs) : Renders bytes (gap ++ '0' :: x :: cs)

/-- A mark is nothing that digits spell. -/
theorem Spells.dropHexMark?_eq_none (h : Spells bytes cs) : dropHexMark? cs = none := by
  have hdigit (c : Char) (hblank : isBlank c = false) (hc : c ∈ cs) : IsDigit c :=
    (exists_encodeChars_iff.mp ⟨_, h⟩).2 c (by simp [hc, hblank])
  have hx : 'x' ∉ cs := fun hx => absurd (hdigit 'x' rfl hx) (by decide)
  have hX : 'X' ∉ cs := fun hX => absurd (hdigit 'X' rfl hX) (by decide)
  exact Text.dropHexMark?_eq_none hx hX

theorem dropHexMark?_marked {x : Char} (hx : x = 'x' ∨ x = 'X') :
    dropHexMark? ('0' :: x :: cs) = some cs := by
  rcases hx with rfl | rfl <;> rfl

/-- **The characters that count** in a rendering are the digits. -/
theorem significant_of_renders (h : Renders bytes s.toList) :
    (significant s).map Char.toLower = encodeChars bytes.data.toList := by
  rw [significant]
  generalize s.toList = cs at h
  cases h with
  | bare h =>
    have htrim : Spells bytes (trimChars cs) := by rwa [Spells, filter_trimChars]
    rw [htrim.dropHexMark?_eq_none, Option.getD_none, filter_trimChars, h]
  | @marked gap cs x hgap hx h =>
    have hblank : isBlank x = false := by rcases hx with rfl | rfl <;> rfl
    have htrim : trimChars (gap ++ '0' :: x :: cs) = '0' :: x :: cs.rdropWhile isBlank := by
      rw [trimChars_append_of_blank hgap, trimChars_cons_of_not_blank rfl,
        rdropWhile_cons_of_not_blank hblank]
    rw [htrim, dropHexMark?_marked hx, Option.getD_some, filter_rdropWhile, h]

/-- **A byte string is read back** from everything that renders it. -/
theorem decode_of_renders (h : Renders bytes s.toList) : decode s = .ok bytes := by
  have hsignificant := significant_of_renders h
  have hplus : '+' ∉ significant s := fun hplus =>
    absurd ((exists_encodeChars_iff.mp ⟨_, hsignificant⟩).2 '+' hplus) (by decide)
  rw [decode_eq_ok_iff, unsigned_of_not_mem hplus, hsignificant]

/-- The digits of a byte string spell it. -/
theorem spells_encode (bytes : ByteArray) : Spells bytes (encode bytes).toList := by
  have hblank : ∀ c ∈ encodeChars bytes.data.toList, (!isBlank c) = true := fun c hc => by
    rw [(writes_encodeChars _).not_blank hc]
    rfl
  rw [Spells, encode, String.toList_ofList, List.filter_eq_self.mpr hblank, map_toLower_encodeChars]

end BytecodeDebugger.Text.Hex
