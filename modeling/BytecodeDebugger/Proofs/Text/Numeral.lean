import BytecodeDebugger.Proofs.Result
import BytecodeDebugger.Proofs.Text.Blank
import BytecodeDebugger.Text.Numeral
import Mathlib.Tactic.IntervalCases

/-!
# What numerals write

Digits write a number, and each one more at the end multiplies what is before it by the radix
(`Base.Writes`).  A numeral is accepted exactly if it is digits, with a sign in front or without,
and they write a number up to the limit (`readNumeral_eq_ok_iff`).

A digit is read as the value as which it is printed (`Base.digit?_eq_some_iff`).  So the digits of
a number write it, with any zeros in front and, in hexadecimal, with letters of either case
(`Base.writes_of_lower`), and a number of 64 bits is read back from all of its renderings
(`readNumber_of_renders`).
-/

namespace BytecodeDebugger.Text

namespace Base

variable {base : Base} {c : Char} {cs : List Char} {d m n limit value : Nat}

/-! ### Digits -/

/-- A digit as it is printed: letters are in lower case. -/
def lower : Base → Char → Char
  | decimal, c => c
  | hexadecimal, c => c.toLower

theorem one_lt_radix (base : Base) : 1 < base.radix := by
  cases base <;> decide

/-- What holds of all characters in a range holds of one that is in it. -/
theorem forall_of_range {p : Char → Prop} {first last : Char} (hfirst : first ≤ c)
    (hlast : c ≤ last)
    (h : ∀ n < last.toNat + 1 - first.toNat, p (Char.ofNat (first.toNat + n))) : p c := by
  have hlow : first.toNat ≤ c.toNat := hfirst
  have hhigh : c.toNat ≤ last.toNat := hlast
  have hc := h (c.toNat - first.toNat) (by omega)
  rwa [Nat.add_sub_cancel' hlow, c.ofNat_toNat] at hc

theorem digit?_digitChar (h : d < base.radix) : base.digit? (Nat.digitChar d) = some d := by
  cases base with
  | decimal =>
    change d < 10 at h
    interval_cases d <;> rfl
  | hexadecimal =>
    change d < 16 at h
    interval_cases d <;> rfl

theorem digit?_lower (base : Base) (c : Char) : base.digit? (base.lower c) = base.digit? c := by
  cases base with
  | decimal => rfl
  | hexadecimal =>
    by_cases hupper : 'A' ≤ c ∧ c ≤ 'Z'
    · exact forall_of_range (p := fun c => hexadecimal.digit? c.toLower = hexadecimal.digit? c)
        hupper.1 hupper.2 (by decide)
    · have hc : c.toLower = c := dif_neg hupper
      rw [lower, hc]

/-- A character, if it is a digit, is printed as the digit of its value and is no white space. -/
def PrintsBack (base : Base) (c : Char) : Prop :=
  ∀ d ∈ base.digit? c, d < base.radix ∧ base.lower c = Nat.digitChar d ∧ isBlank c = false

instance (base : Base) (c : Char) : Decidable (base.PrintsBack c) :=
  inferInstanceAs (Decidable (∀ d ∈ base.digit? c,
    d < base.radix ∧ base.lower c = Nat.digitChar d ∧ isBlank c = false))

/-- Digits come from three ranges, which are short enough to be looked through. -/
theorem printsBack (base : Base) (c : Char) : base.PrintsBack c := by
  by_cases hfigure : '0' ≤ c ∧ c ≤ '9'
  · exact forall_of_range (p := base.PrintsBack) hfigure.1 hfigure.2 (by cases base <;> decide)
  by_cases hlower : 'a' ≤ c ∧ c ≤ 'f'
  · exact forall_of_range (p := base.PrintsBack) hlower.1 hlower.2 (by cases base <;> decide)
  by_cases hupper : 'A' ≤ c ∧ c ≤ 'F'
  · exact forall_of_range (p := base.PrintsBack) hupper.1 hupper.2 (by cases base <;> decide)
  intro d hd
  have hnone : base.digit? c = none := by simp [digit?, hfigure, hlower, hupper]
  rw [hnone] at hd
  cases hd

/-- **A digit is read as the value as which it is printed.** -/
theorem digit?_eq_some_iff :
    base.digit? c = some d ↔ d < base.radix ∧ base.lower c = Nat.digitChar d := by
  constructor
  · intro h
    obtain ⟨hd, hlower, -⟩ := base.printsBack c d h
    exact ⟨hd, hlower⟩
  · rintro ⟨hd, hlower⟩
    rw [← digit?_lower, hlower, digit?_digitChar hd]

/-! ### The number that digits write -/

/-- Digits write a number. -/
inductive Writes (base : Base) : List Char → Nat → Prop
  | nil : Writes base [] 0
  | concat {cs : List Char} {c : Char} {n d : Nat} (h : Writes base cs n)
      (hc : base.digit? c = some d) : Writes base (cs ++ [c]) (n * base.radix + d)

theorem Writes.exists_digit (h : base.Writes cs n) (hc : c ∈ cs) : ∃ d, base.digit? c = some d := by
  induction h with
  | nil => cases hc
  | @concat cs last n d _ hlast ih =>
    rcases List.mem_append.mp hc with hc | hc
    · exact ih hc
    · rw [List.mem_singleton.mp hc]
      exact ⟨d, hlast⟩

theorem Writes.not_blank (h : base.Writes cs n) (hc : c ∈ cs) : isBlank c = false := by
  obtain ⟨d, hd⟩ := h.exists_digit hc
  exact (base.printsBack c d hd).2.2

theorem Writes.not_mem (h : base.Writes cs n) (hc : base.digit? c = none) : c ∉ cs := by
  intro hmem
  obtain ⟨d, hd⟩ := h.exists_digit hmem
  rw [hc] at hd
  cases hd

theorem writes_nil_iff : base.Writes [] n ↔ n = 0 := by
  constructor
  · intro h
    generalize hcs : ([] : List Char) = cs at h
    cases h with
    | nil => rfl
    | concat h hc => exact absurd hcs.symm (by simp)
  · rintro rfl
    exact .nil

theorem writes_concat_iff : base.Writes (cs ++ [c]) n ↔
    ∃ m d, base.Writes cs m ∧ base.digit? c = some d ∧ n = m * base.radix + d := by
  constructor
  · intro h
    generalize hcs : cs ++ [c] = cs' at h
    cases h with
    | nil => exact absurd hcs (by simp)
    | @concat front last m d h hlast =>
      obtain ⟨rfl, hc⟩ := List.append_inj' hcs rfl
      obtain rfl := List.singleton_inj.mp hc
      exact ⟨m, d, h, hlast, rfl⟩
  · rintro ⟨m, d, h, hc, rfl⟩
    exact h.concat hc

theorem writes_singleton_iff : base.Writes [c] n ↔ base.digit? c = some n := by
  have h := @writes_concat_iff base c [] n
  simpa [writes_nil_iff, eq_comm] using h

theorem writes_pair_iff {c' : Char} : base.Writes [c, c'] n ↔
    ∃ d d', base.digit? c = some d ∧ base.digit? c' = some d' ∧ n = d * base.radix + d' := by
  have h := @writes_concat_iff base c' [c] n
  simpa only [List.singleton_append, writes_singleton_iff, exists_and_left] using h

/-- One more digit as it is printed, behind what writes a number. -/
theorem writes_of_lower_concat {printed : List Char} (hd : d < base.radix)
    (h : cs.map base.lower = printed ++ [Nat.digitChar d])
    (hprinted : ∀ cs', cs'.map base.lower = printed → base.Writes cs' m) :
    base.Writes cs (m * base.radix + d) := by
  obtain ⟨front, back, rfl, hfront, hback⟩ := List.map_eq_append_iff.mp h
  obtain ⟨c, rfl, hc⟩ := List.map_eq_singleton_iff.mp hback
  exact (hprinted front hfront).concat (digit?_eq_some_iff.mpr ⟨hd, hc⟩)

theorem writes_zero {zeros : Nat} (h : cs.map base.lower = List.replicate zeros '0') :
    base.Writes cs 0 := by
  have hradix := base.one_lt_radix
  induction zeros generalizing cs with
  | zero =>
    rw [List.map_eq_nil_iff.mp h]
    exact .nil
  | succ zeros ih =>
    rw [List.replicate_succ'] at h
    simpa using writes_of_lower_concat (d := 0) (by omega) h fun cs' => ih

/-- **The digits of a number write it**, with zeros in front and letters of either case. -/
theorem writes_of_lower {zeros : Nat}
    (h : cs.map base.lower = List.replicate zeros '0' ++ Nat.toDigits base.radix n) :
    base.Writes cs n := by
  have hradix := base.one_lt_radix
  induction n using Nat.strong_induction_on generalizing cs with
  | _ n ih =>
    rw [Nat.toDigits_eq_if hradix] at h
    split_ifs at h with hn
    · simpa using writes_of_lower_concat hn h fun cs' => writes_zero
    · rw [← List.append_assoc] at h
      have hlast : n % base.radix < base.radix := Nat.mod_lt n (by omega)
      have hfront : n / base.radix < n := Nat.div_lt_self (by omega) hradix
      have hwrites := writes_of_lower_concat hlast h fun cs' => ih (n / base.radix) hfront
      rwa [Nat.div_add_mod'] at hwrites

theorem lower_digitChar (hd : d < base.radix) : base.lower (Nat.digitChar d) = Nat.digitChar d :=
  (digit?_eq_some_iff.mp (digit?_digitChar hd)).2

theorem map_lower_toDigits (base : Base) (n : Nat) :
    (Nat.toDigits base.radix n).map base.lower = Nat.toDigits base.radix n := by
  have hradix := base.one_lt_radix
  induction n using Nat.strong_induction_on with
  | _ n ih =>
    rw [Nat.toDigits_eq_if hradix]
    split_ifs with hn
    · rw [List.map_singleton, lower_digitChar hn]
    · have hlast : n % base.radix < base.radix := Nat.mod_lt n (by omega)
      have hfront : n / base.radix < n := Nat.div_lt_self (by omega) hradix
      rw [List.map_append, ih (n / base.radix) hfront, List.map_singleton, lower_digitChar hlast]

/-- What is printed is in lower case, zeros in front included. -/
theorem map_lower_replicate_toDigits (base : Base) (zeros n : Nat) :
    (List.replicate zeros '0' ++ Nat.toDigits base.radix n).map base.lower =
      List.replicate zeros '0' ++ Nat.toDigits base.radix n := by
  have hradix := base.one_lt_radix
  have hzero : base.lower '0' = '0' := lower_digitChar (d := 0) (by omega)
  rw [List.map_append, List.map_replicate, hzero, map_lower_toDigits]

/-- The digits as which a number is printed write it, with zeros in front. -/
theorem writes_toDigits (base : Base) (zeros n : Nat) :
    base.Writes (List.replicate zeros '0' ++ Nat.toDigits base.radix n) n :=
  writes_of_lower (base.map_lower_replicate_toDigits zeros n)

end Base

/-! ### Numerals -/

variable {base : Base} {c : Char} {cs : List Char} {limit value n : Nat}

theorem readDigits_append (cs cs' : List Char) :
    readDigits base limit value (cs ++ cs') =
      (readDigits base limit value cs).bind fun value => readDigits base limit value cs' := by
  induction cs generalizing value with
  | nil => rfl
  | cons c cs ih =>
    rw [List.cons_append, readDigits, readDigits]
    split
    · rfl
    · split_ifs
      · rfl
      · exact ih

theorem readDigits_singleton_eq_ok_iff : readDigits base limit value [c] = .ok n ↔
    ∃ d, base.digit? c = some d ∧ n = value * base.radix + d ∧ n ≤ limit := by
  rw [readDigits]
  cases hc : base.digit? c with
  | none => simp
  | some d =>
    simp only [readDigits]
    split_ifs with hlimit
    · simp
      omega
    · simp
      omega

/-- Digits are read as the number that they write, if it is up to the limit. -/
theorem readDigits_eq_ok_iff :
    readDigits base limit 0 cs = .ok n ↔ base.Writes cs n ∧ n ≤ limit := by
  induction cs using List.reverseRecOn generalizing n with
  | nil =>
    rw [readDigits, Except.ok.injEq, Base.writes_nil_iff]
    omega
  | append_singleton cs c ih =>
    rw [readDigits_append, Base.writes_concat_iff]
    constructor
    · intro h
      obtain ⟨m, hm, hlast⟩ := Except.bind_eq_ok_iff.mp h
      obtain ⟨d, hc, rfl, hlimit⟩ := readDigits_singleton_eq_ok_iff.mp hlast
      exact ⟨⟨m, d, (ih.mp hm).1, hc, rfl⟩, hlimit⟩
    · rintro ⟨⟨m, d, hm, hc, rfl⟩, hlimit⟩
      -- What the digits write before the last one is not greater.
      have hradix := base.one_lt_radix
      have hle : m ≤ m * base.radix := Nat.le_mul_of_pos_right m (by omega)
      have hfront : readDigits base limit 0 cs = .ok m := ih.mpr ⟨hm, by omega⟩
      exact Except.bind_eq_ok_iff.mpr
        ⟨m, hfront, readDigits_singleton_eq_ok_iff.mpr ⟨d, hc, rfl, hlimit⟩⟩

/-- Digits write one number only. -/
theorem Base.Writes.unique {m : Nat} (hm : base.Writes cs m) (hn : base.Writes cs n) : m = n := by
  have hm' : readDigits base (max m n) 0 cs = .ok m := readDigits_eq_ok_iff.mpr ⟨hm, by omega⟩
  have hn' : readDigits base (max m n) 0 cs = .ok n := readDigits_eq_ok_iff.mpr ⟨hn, by omega⟩
  exact Except.ok.inj (hm'.symm.trans hn')

theorem digit?_plus (base : Base) : base.digit? '+' = none := by
  cases base <;> rfl

/-- **A numeral is digits**, at least one, with or without a sign in front. -/
theorem readNumeral_eq_ok_iff : readNumeral base limit cs = .ok n ↔
    ∃ digits, digits ≠ [] ∧ (cs = digits ∨ cs = '+' :: digits) ∧ base.Writes digits n ∧
      n ≤ limit := by
  have hsign (digits : List Char) : ¬ base.Writes ('+' :: digits) n := fun h =>
    h.not_mem (digit?_plus base) List.mem_cons_self
  unfold readNumeral
  split
  · simp
  next c cs =>
    rw [readDigits_eq_ok_iff]
    constructor
    · intro h
      exact ⟨c :: cs, by simp, Or.inr rfl, h⟩
    · rintro ⟨digits, -, rfl | heq, h⟩
      · exact absurd h.1 (hsign _)
      · obtain ⟨-, rfl⟩ := List.cons.inj heq
        exact h
  next c cs hplus =>
    rw [readDigits_eq_ok_iff]
    constructor
    · intro h
      exact ⟨c :: cs, by simp, Or.inl rfl, h⟩
    · rintro ⟨digits, hne, rfl | heq, h⟩
      · exact h
      · obtain ⟨rfl, rfl⟩ := List.cons.inj heq
        obtain ⟨d, ds, rfl⟩ := List.exists_cons_of_ne_nil hne
        exact absurd rfl (hplus d ds rfl)

/-! ### Numbers -/

theorem dropHexMark?_eq_none (hx : 'x' ∉ cs) (hX : 'X' ∉ cs) : dropHexMark? cs = none := by
  unfold dropHexMark?
  split
  · exact absurd (by simp) hx
  · exact absurd (by simp) hX
  · rfl

/-- A number is a numeral, in hexadecimal behind a mark and in decimal without one. -/
theorem readNumber_eq_ok_iff {s : String} : readNumber s = .ok n ↔
    (∃ digits, dropHexMark? (trimChars s.toList) = some digits ∧
      readNumeral .hexadecimal maxPosition digits = .ok n) ∨
    dropHexMark? (trimChars s.toList) = none ∧
      readNumeral .decimal maxPosition (trimChars s.toList) = .ok n := by
  rw [readNumber]
  cases dropHexMark? (trimChars s.toList) with
  | none => simp [Except.mapError_eq_ok_iff]
  | some digits => simp [Except.mapError_eq_ok_iff]

/-- A number has no more than 64 bits. -/
theorem lt_of_readNumber {s : String} (h : readNumber s = .ok n) : n < 2 ^ 64 := by
  have hmax : maxPosition < 2 ^ 64 := by decide
  have hlimit {base : Base} {cs : List Char} (h : readNumeral base maxPosition cs = .ok n) :
      n ≤ maxPosition := by
    obtain ⟨digits, -, -, -, hn⟩ := readNumeral_eq_ok_iff.mp h
    exact hn
  rcases readNumber_eq_ok_iff.mp h with ⟨digits, -, h⟩ | ⟨-, h⟩
  · exact (hlimit h).trans_lt hmax
  · exact (hlimit h).trans_lt hmax

/-- A text renders a number: its digits or, behind a mark, its hexadecimal digits with letters of
either case.  Zeros may stand in front of the digits. -/
inductive Renders (n : Nat) : List Char → Prop
  | decimal (zeros : Nat) : Renders n (List.replicate zeros '0' ++ Nat.toDigits 10 n)
  | hexadecimal {x : Char} {digits : List Char} (zeros : Nat) (hx : x = 'x' ∨ x = 'X')
      (h : digits.map Char.toLower = List.replicate zeros '0' ++ Nat.toDigits 16 n) :
      Renders n ('0' :: x :: digits)

/-- **A number is read back** from everything that renders it. -/
theorem readNumber_of_renders {s : String} (h : Renders n s.toList) (hn : n < 2 ^ 64) :
    readNumber s = .ok n := by
  have hmax : n ≤ maxPosition := Nat.le_of_lt_succ hn
  have hne {zeros base : Nat} : List.replicate zeros '0' ++ Nat.toDigits base n ≠ [] := by simp
  rw [readNumber_eq_ok_iff]
  generalize s.toList = cs at h
  cases h with
  | decimal zeros =>
    generalize hcs : List.replicate zeros '0' ++ Nat.toDigits 10 n = cs at hne
    have hlower : cs.map Base.decimal.lower = List.replicate zeros '0' ++ Nat.toDigits 10 n :=
      (List.map_id' cs).trans hcs.symm
    have hwrites : Base.decimal.Writes cs n := Base.writes_of_lower hlower
    right
    rw [trimChars_of_not_blank fun c hc => hwrites.not_blank hc]
    exact ⟨dropHexMark?_eq_none (hwrites.not_mem rfl) (hwrites.not_mem rfl),
      readNumeral_eq_ok_iff.mpr ⟨cs, hcs ▸ hne, Or.inl rfl, hwrites, hmax⟩⟩
  | @hexadecimal x digits zeros hx h =>
    have hwrites : Base.hexadecimal.Writes digits n := Base.writes_of_lower h
    have hblank : ∀ c ∈ '0' :: x :: digits, isBlank c = false := by
      rintro c (_ | ⟨_, _ | ⟨_, hc⟩⟩)
      · rfl
      · rcases hx with rfl | rfl <;> rfl
      · exact hwrites.not_blank hc
    have hdigits : digits ≠ [] := fun hnil => hne (by rw [← h, hnil, List.map_nil])
    have hmark : dropHexMark? ('0' :: x :: digits) = some digits := by
      rcases hx with rfl | rfl <;> rfl
    left
    rw [trimChars_of_not_blank hblank]
    exact ⟨digits, hmark,
      readNumeral_eq_ok_iff.mpr ⟨digits, hdigits, Or.inl rfl, hwrites, hmax⟩⟩

end BytecodeDebugger.Text
