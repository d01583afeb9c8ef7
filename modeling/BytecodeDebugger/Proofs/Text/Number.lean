import BytecodeDebugger.Proofs.Text.Numeral

/-!
# Which numbers are read, and why others are refused

Digits are refused at the first character that cannot be read on top of those before it
(`readDigits_eq_error_iff`): it is no digit, or with it the number exceeds the limit.  In terms of
what the digits write, that is so for two reasons, of which the one further left counts
(`NumeralFault.Explains`, `readNumeral_eq_error_iff`).

`readNumber_exact` says for every text whether it is read as a number, as which one, and why not
otherwise; a number is read from everything that renders it, with white space around.
-/

namespace BytecodeDebugger.Text

variable {base : Base} {c : Char} {cs body : List Char} {limit value n : Nat}
  {fault : NumeralFault}

/-! ### Digits -/

theorem readDigits_singleton_eq_error_iff : readDigits base limit value [c] = .error fault ↔
    base.digit? c = none ∧ fault = .invalidDigit ∨
      ∃ d, base.digit? c = some d ∧ limit < value * base.radix + d ∧ fault = .tooLarge := by
  rw [readDigits]
  cases hc : base.digit? c with
  | none => simp [eq_comm]
  | some d =>
    simp only [readDigits]
    split_ifs with hlimit
    · simp [hlimit, eq_comm]
    · simp [hlimit]

/-- Digits are refused at the first character that cannot be read on top of those before it. -/
theorem readDigits_eq_error_iff : readDigits base limit 0 cs = .error fault ↔
    ∃ front c rest n, cs = front ++ c :: rest ∧ base.Writes front n ∧ n ≤ limit ∧
      readDigits base limit n [c] = .error fault := by
  constructor
  · intro h
    induction cs using List.reverseRecOn with
    | nil => cases h
    | append_singleton cs c ih =>
      rw [readDigits_append] at h
      cases hfront : readDigits base limit 0 cs with
      | error fault' =>
        rw [hfront] at h
        obtain ⟨front, c', rest, n, rfl, hrefused⟩ := ih (hfront.trans h)
        exact ⟨front, c', rest ++ [c], n, by simp, hrefused⟩
      | ok n =>
        rw [hfront] at h
        obtain ⟨hwrites, hle⟩ := readDigits_eq_ok_iff.mp hfront
        exact ⟨cs, c, [], n, rfl, hwrites, hle, h⟩
  · rintro ⟨front, c, rest, n, rfl, hwrites, hle, hc⟩
    have hfront : readDigits base limit 0 front = .ok n := readDigits_eq_ok_iff.mpr ⟨hwrites, hle⟩
    have hrefused : readDigits base limit 0 (front ++ [c]) = .error fault := by
      rw [readDigits_append, hfront]
      exact hc
    rw [List.append_cons, readDigits_append, hrefused]
    rfl

/-- Digits that write a number beyond the limit are refused as too large, whatever follows them. -/
theorem readDigits_append_of_writes {front rest : List Char} (hwrites : base.Writes front n)
    (hlimit : limit < n) : readDigits base limit 0 (front ++ rest) = .error .tooLarge := by
  have hfront : readDigits base limit 0 front = .error .tooLarge := by
    cases hread : readDigits base limit 0 front with
    | ok m =>
      obtain ⟨hm, hle⟩ := readDigits_eq_ok_iff.mp hread
      have hmn := hm.unique hwrites
      omega
    | error fault =>
      obtain ⟨front', c, rest', m, rfl, -, -, hc⟩ := readDigits_eq_error_iff.mp hread
      obtain ⟨d, hd⟩ := hwrites.exists_digit (c := c) (by simp)
      rcases readDigits_singleton_eq_error_iff.mp hc with ⟨hnone, -⟩ | ⟨_, -, -, rfl⟩
      · rw [hd] at hnone
        cases hnone
      · rfl
  rw [readDigits_append, hfront]
  rfl

/-! ### Numerals -/

/-- What is behind the sign, if there is one. -/
def dropSign : List Char → List Char
  | '+' :: cs => cs
  | cs => cs

/-- What is the matter with a numeral that is refused for the given reason.  A sign may stand in
front of its digits, but not alone. -/
def NumeralFault.Explains (base : Base) (limit : Nat) (cs : List Char) : NumeralFault → Prop
  | .empty => cs = []
  | .invalidDigit => cs = ['+'] ∨ ∃ front c rest n, dropSign cs = front ++ c :: rest ∧
      base.digit? c = none ∧ base.Writes front n ∧ n ≤ limit
  | .tooLarge => ∃ front rest n, dropSign cs = front ++ rest ∧ base.Writes front n ∧ limit < n

/-- A numeral other than a sign is the digits behind its sign. -/
theorem readNumeral_eq (hcs : cs ≠ []) (hsign : cs ≠ ['+']) :
    readNumeral base limit cs = readDigits base limit 0 (dropSign cs) := by
  unfold readNumeral dropSign
  split
  · exact absurd rfl hcs
  · rfl
  next c cs hplus =>
    split
    next cs' heq =>
      obtain ⟨rfl, rfl⟩ := List.cons.inj heq
      have hne : cs ≠ [] := fun hnil => hsign (by rw [hnil])
      obtain ⟨d, ds, rfl⟩ := List.exists_cons_of_ne_nil hne
      exact absurd rfl (hplus d ds rfl)
    · rfl

/-- **A numeral is refused for what is the matter with it.** -/
theorem readNumeral_eq_error_iff :
    readNumeral base limit cs = .error fault ↔ fault.Explains base limit cs := by
  by_cases hcs : cs = []
  · rw [hcs]
    cases fault <;> simp [NumeralFault.Explains, readNumeral, dropSign, Base.writes_nil_iff]
  by_cases hsign : cs = ['+']
  · rw [hsign]
    cases fault <;> simp [NumeralFault.Explains, readNumeral, readDigits, dropSign, digit?_plus,
      Base.writes_nil_iff]
  rw [readNumeral_eq hcs hsign]
  constructor
  · intro h
    obtain ⟨front, c, rest, n, hdigits, hwrites, hle, hc⟩ := readDigits_eq_error_iff.mp h
    rcases readDigits_singleton_eq_error_iff.mp hc with ⟨hnone, rfl⟩ | ⟨d, hd, hlimit, rfl⟩
    · exact Or.inr ⟨front, c, rest, n, hdigits, hnone, hwrites, hle⟩
    · refine ⟨front ++ [c], rest, n * base.radix + d, ?_, hwrites.concat hd, hlimit⟩
      rw [hdigits, List.append_cons]
  · intro h
    cases fault with
    | empty => exact absurd h hcs
    | invalidDigit =>
      obtain ⟨front, c, rest, n, hdigits, hnone, hwrites, hle⟩ := h.resolve_left hsign
      have hc : readDigits base limit n [c] = .error .invalidDigit :=
        readDigits_singleton_eq_error_iff.mpr (Or.inl ⟨hnone, rfl⟩)
      exact readDigits_eq_error_iff.mpr ⟨front, c, rest, n, hdigits, hwrites, hle, hc⟩
    | tooLarge =>
      obtain ⟨front, rest, n, hdigits, hwrites, hlimit⟩ := h
      rw [hdigits]
      exact readDigits_append_of_writes hwrites hlimit

/-! ### Numbers -/

/-- What a text without margins may start with if it is to be a number in a base. -/
def Base.IsMark : Base → List Char → Prop
  | decimal, mark => mark = []
  | hexadecimal, mark => mark = ['0', 'x'] ∨ mark = ['0', 'X']

/-- A text without margins asks for a numeral in a base: for what is behind the mark in hexadecimal,
and for the whole of a text without such a mark in decimal. -/
def Asks (cs : List Char) : Base → List Char → Prop
  | .decimal, body => body = cs ∧
      ∀ mark rest, Base.hexadecimal.IsMark mark → cs ≠ mark ++ rest
  | .hexadecimal, body => ∃ mark, Base.hexadecimal.IsMark mark ∧ cs = mark ++ body

theorem dropHexMark?_eq_some_iff :
    dropHexMark? cs = some body ↔ Asks cs .hexadecimal body := by
  constructor
  · intro h
    unfold dropHexMark? at h
    split at h
    · obtain rfl := Option.some.inj h
      exact ⟨['0', 'x'], Or.inl rfl, rfl⟩
    · obtain rfl := Option.some.inj h
      exact ⟨['0', 'X'], Or.inr rfl, rfl⟩
    · cases h
  · rintro ⟨mark, rfl | rfl, rfl⟩
    · rfl
    · rfl

theorem dropHexMark?_eq_none_iff : dropHexMark? cs = none ↔ Asks cs .decimal cs := by
  rw [Option.eq_none_iff_forall_ne_some]
  constructor
  · intro h
    refine ⟨rfl, fun mark rest hmark heq => h rest ?_⟩
    exact dropHexMark?_eq_some_iff.mpr ⟨mark, hmark, heq⟩
  · rintro ⟨-, h⟩ rest hrest
    obtain ⟨mark, hmark, heq⟩ := dropHexMark?_eq_some_iff.mp hrest
    exact h mark rest hmark heq

theorem exists_asks (cs : List Char) : ∃ base body, Asks cs base body := by
  cases h : dropHexMark? cs with
  | none => exact ⟨.decimal, cs, dropHexMark?_eq_none_iff.mp h⟩
  | some body => exact ⟨.hexadecimal, body, dropHexMark?_eq_some_iff.mp h⟩

variable {s : String}

/-- A number is read as the numeral that its text asks for. -/
theorem readNumber_of_asks (h : Asks (trimChars s.toList) base body) :
    readNumber s = (readNumeral base maxPosition body).mapError (⟨base, trim s, ·⟩) := by
  rw [readNumber]
  cases base with
  | decimal =>
    obtain ⟨rfl, hmark⟩ := h
    rw [dropHexMark?_eq_none_iff.mpr ⟨rfl, hmark⟩]
    rfl
  | hexadecimal =>
    rw [dropHexMark?_eq_some_iff.mpr h]
    rfl

/-- Decimal digits ask for no hexadecimal ones. -/
theorem asks_of_writes {mark sign digits : List Char} (hmark : base.IsMark mark)
    (hsign : sign = [] ∨ sign = ['+']) (hwrites : base.Writes digits n) :
    Asks (mark ++ sign ++ digits) base (sign ++ digits) := by
  cases base with
  | hexadecimal => exact ⟨mark, hmark, List.append_assoc mark sign digits⟩
  | decimal =>
    obtain rfl : mark = [] := hmark
    refine ⟨rfl, fun mark rest hmark heq => ?_⟩
    have hx : 'x' ∉ digits := hwrites.not_mem rfl
    have hX : 'X' ∉ digits := hwrites.not_mem rfl
    rw [List.nil_append] at heq
    rcases hsign with rfl | rfl <;> rcases hmark with rfl | rfl
    · exact hx (by rw [← List.nil_append digits, heq]; simp)
    · exact hX (by rw [← List.nil_append digits, heq]; simp)
    · exact absurd (List.head_eq_of_cons_eq heq) (by decide)
    · exact absurd (List.head_eq_of_cons_eq heq) (by decide)

/-- White space around a number makes no difference. -/
theorem readNumber_of_margins {before after : List Char} (hbefore : Blank before)
    (hafter : Blank after) (hs : s.toList = before ++ cs ++ after) :
    readNumber s = readNumber (String.ofList cs) := by
  have htrim : trimChars s.toList = trimChars (String.ofList cs).toList := by
    rw [hs, trimChars_append_gap hafter, trimChars_append_of_blank hbefore, String.toList_ofList]
  rw [readNumber, readNumber, htrim]

/-- A text is read as a number if it is a mark, maybe a sign, and digits that write the number. -/
theorem readNumber_eq_ok_iff_writes : readNumber s = .ok n ↔ n < 2 ^ 64 ∧
    ∃ base mark sign digits, Base.IsMark base mark ∧ (sign = [] ∨ sign = ['+']) ∧ digits ≠ [] ∧
      base.Writes digits n ∧ trimChars s.toList = mark ++ sign ++ digits := by
  constructor
  · intro h
    refine ⟨lt_of_readNumber h, ?_⟩
    obtain ⟨base, body, hasks⟩ := exists_asks (trimChars s.toList)
    rw [readNumber_of_asks hasks, Except.mapError_eq_ok_iff, readNumeral_eq_ok_iff] at h
    obtain ⟨digits, hne, hbody, hwrites, -⟩ := h
    obtain ⟨sign, hsign, rfl⟩ : ∃ sign, (sign = [] ∨ sign = ['+']) ∧ body = sign ++ digits := by
      rcases hbody with rfl | rfl
      · exact ⟨[], Or.inl rfl, rfl⟩
      · exact ⟨['+'], Or.inr rfl, rfl⟩
    cases base with
    | decimal => exact ⟨.decimal, [], sign, digits, rfl, hsign, hne, hwrites, hasks.1.symm⟩
    | hexadecimal =>
      obtain ⟨mark, hmark, htext⟩ := hasks
      rw [← List.append_assoc] at htext
      exact ⟨.hexadecimal, mark, sign, digits, hmark, hsign, hne, hwrites, htext⟩
  · rintro ⟨hn, base, mark, sign, digits, hmark, hsign, hne, hwrites, htext⟩
    have hasks := asks_of_writes hmark hsign hwrites
    rw [← htext] at hasks
    rw [readNumber_of_asks hasks, Except.mapError_eq_ok_iff, readNumeral_eq_ok_iff]
    refine ⟨digits, hne, ?_, hwrites, Nat.le_of_lt_succ hn⟩
    rcases hsign with rfl | rfl
    · exact Or.inl rfl
    · exact Or.inr rfl

/-- A text is refused with the base that it asks for and for what is the matter with its numeral. -/
theorem readNumber_eq_error_iff {e : NumberError} : readNumber s = .error e ↔ e.text = trim s ∧
    ∃ body, Asks (trimChars s.toList) e.base body ∧
      e.fault.Explains e.base (2 ^ 64 - 1) body := by
  constructor
  · intro h
    obtain ⟨base, body, hasks⟩ := exists_asks (trimChars s.toList)
    rw [readNumber_of_asks hasks, Except.mapError_eq_error_iff] at h
    obtain ⟨fault, hfault, rfl⟩ := h
    exact ⟨rfl, body, hasks, readNumeral_eq_error_iff.mp hfault⟩
  · rintro ⟨htext, body, hasks, hfault⟩
    rw [readNumber_of_asks hasks, Except.mapError_eq_error_iff]
    exact ⟨e.fault, readNumeral_eq_error_iff.mpr hfault, by rw [← htext]⟩

/-- **Numbers are read exactly.**  A text is read as a number if, without the white space around it,
it is the mark of a base, maybe a sign, and digits of the base that write a number of 64 bits; so
every such number is read from all that renders it.  Any other text is refused with the base that it
asks for, and with what is the matter with the numeral behind the mark: it is empty, or it has a
character that is no digit (or no digits behind its sign) before the digits have gone beyond 64
bits, or they have. -/
theorem readNumber_exact :
    (∀ (s : String) (n : Nat), readNumber s = .ok n ↔ n < 2 ^ 64 ∧
      ∃ base mark sign digits, Base.IsMark base mark ∧ (sign = [] ∨ sign = ['+']) ∧ digits ≠ [] ∧
        base.Writes digits n ∧ trimChars s.toList = mark ++ sign ++ digits) ∧
    (∀ (s : String) (n : Nat) (before cs after : List Char), n < 2 ^ 64 → Renders n cs →
      Blank before → Blank after → s.toList = before ++ cs ++ after → readNumber s = .ok n) ∧
    ∀ (s : String) (e : NumberError), readNumber s = .error e ↔ e.text = trim s ∧
      ∃ body, Asks (trimChars s.toList) e.base body ∧
        e.fault.Explains e.base (2 ^ 64 - 1) body := by
  refine ⟨fun s n => readNumber_eq_ok_iff_writes, ?_, fun s e => readNumber_eq_error_iff⟩
  intro s n before cs after hn hrenders hbefore hafter hs
  rw [readNumber_of_margins hbefore hafter hs]
  exact readNumber_of_renders (by rwa [String.toList_ofList]) hn

/-- The digits of `2 ^ 64` are too many, whatever comes behind them; with one digit less there is
still a character that is none. -/
theorem readNumber_exact_limit :
    readNumber "\t0X00fF " = .ok 255 ∧
    readNumber "18446744073709551616x" =
      .error ⟨.decimal, "18446744073709551616x", .tooLarge⟩ ∧
    readNumber "1844674407370955161x6" =
      .error ⟨.decimal, "1844674407370955161x6", .invalidDigit⟩ := by
  obtain ⟨-, hread, hrefused⟩ := readNumber_exact
  have hasks {cs : List Char} (hcs : cs.head? = some '1') : Asks cs .decimal cs := by
    refine ⟨rfl, fun mark rest hmark heq => ?_⟩
    rcases hmark with rfl | rfl
    · simp [heq] at hcs
    · simp [heq] at hcs
  refine ⟨?_, ?_, ?_⟩
  · exact hread _ 255 ['\t'] ['0', 'X', '0', '0', 'f', 'F'] [' '] (by decide)
      (.hexadecimal 2 (Or.inr rfl) rfl) (by simp [Blank]; rfl) (by simp [Blank]; rfl) rfl
  · exact (hrefused _ _).mpr ⟨rfl, _, hasks rfl, _, ['x'], 2 ^ 64, rfl,
      Base.writes_toDigits .decimal 0 (2 ^ 64), by decide⟩
  · exact (hrefused _ _).mpr ⟨rfl, _, hasks rfl, Or.inr ⟨_, 'x', ['6'], 2 ^ 64 / 10, rfl, rfl,
      Base.writes_toDigits .decimal 0 (2 ^ 64 / 10), by decide⟩⟩

end BytecodeDebugger.Text
