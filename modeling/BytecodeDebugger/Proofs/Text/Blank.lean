import BytecodeDebugger.Text.Blank
import Mathlib.Data.List.DropRight

/-!
# Words and margins

A text is words with white space around them and at least one character of it between any two
(`Splits`).  It is so in exactly one way, and its words are the ones that are found
(`words_eq_iff`).

What is trimmed off a text is white space (`filter_trimChars`).  From a character that is no white
space on, that can only be at the far end (`trimChars_cons_of_not_blank`).
-/

namespace BytecodeDebugger.Text

/-- There is nothing but white space. -/
def Blank (cs : List Char) : Prop :=
  ∀ c ∈ cs, isBlank c = true

/-- There are characters, and none of them is white space. -/
def IsWord (cs : List Char) : Prop :=
  cs ≠ [] ∧ ∀ c ∈ cs, isBlank c = false

/-- Characters are words with white space around them.  As a word goes on to the next white space,
any two of them have some in between. -/
inductive SplitsInto : List Char → List (List Char) → Prop
  | blank {gap : List Char} (hgap : Blank gap) : SplitsInto gap []
  | word {gap word rest : List Char} {words : List (List Char)} (hgap : Blank gap)
      (hword : IsWord word) (hend : ∀ c ∈ rest.head?, isBlank c = true)
      (hrest : SplitsInto rest words) : SplitsInto (gap ++ word ++ rest) (word :: words)

/-- A text is words with white space around them. -/
def Splits (s : String) (tokens : List String) : Prop :=
  SplitsInto s.toList (tokens.map String.toList)

variable {c : Char} {cs gap run word rest : List Char}

/-! ### Words -/

theorem SplitsInto.cons_blank {words : List (List Char)} (h : SplitsInto cs words)
    (hc : isBlank c = true) : SplitsInto (c :: cs) words := by
  cases h with
  | blank hgap => exact .blank (List.forall_mem_cons.mpr ⟨hc, hgap⟩)
  | @word gap word rest words hgap hword hend hrest =>
    have hgap' : Blank (c :: gap) := List.forall_mem_cons.mpr ⟨hc, hgap⟩
    have h' : SplitsInto (c :: gap ++ word ++ rest) (word :: words) := .word hgap' hword hend hrest
    exact h'

/-- A run that has been read is followed by the words after it, as a word if it is one. -/
theorem SplitsInto.close {words : List (List Char)} (hrun : ∀ c ∈ run, isBlank c = false)
    (hend : ∀ c ∈ rest.head?, isBlank c = true) (h : SplitsInto rest words) :
    SplitsInto (run.reverse ++ rest) (wordsOfChars.close run words) := by
  cases run with
  | nil => exact h
  | cons c run =>
    have hgap : Blank [] := by simp [Blank]
    have hword : IsWord (c :: run).reverse := ⟨by simp, by simpa [or_imp, and_comm] using hrun⟩
    have h' : SplitsInto ([] ++ (c :: run).reverse ++ rest) ((c :: run).reverse :: words) :=
      .word hgap hword hend h
    exact h'

/-- The run read so far and the characters to come split into the words that are found. -/
theorem splitsInto_go (hrun : ∀ c ∈ run, isBlank c = false) :
    SplitsInto (run.reverse ++ cs) (wordsOfChars.go run cs) := by
  induction cs generalizing run with
  | nil =>
    have hdone : SplitsInto [] [] := .blank (by simp [Blank])
    exact hdone.close hrun (by simp)
  | cons c cs ih =>
    rw [wordsOfChars.go]
    cases hc : isBlank c with
    | true =>
      -- White space ends the run, and what comes after it starts with an empty one.
      have hrest : SplitsInto (c :: cs) (wordsOfChars.go [] cs) :=
        (@ih [] (by simp)).cons_blank hc
      exact hrest.close hrun (by simpa using hc)
    | false =>
      have hword := ih (List.forall_mem_cons.mpr ⟨hc, hrun⟩)
      rwa [List.reverse_cons, List.append_assoc] at hword

theorem go_append_of_blank (hgap : Blank gap) :
    wordsOfChars.go [] (gap ++ rest) = wordsOfChars.go [] rest := by
  induction gap with
  | nil => rfl
  | cons c gap ih =>
    obtain ⟨hc, hgap⟩ := List.forall_mem_cons.mp hgap
    rw [List.cons_append, wordsOfChars.go, if_pos hc, ih hgap]
    rfl

theorem go_append_of_not_blank (hword : ∀ c ∈ word, isBlank c = false) :
    wordsOfChars.go run (word ++ rest) = wordsOfChars.go (word.reverse ++ run) rest := by
  induction word generalizing run with
  | nil => rfl
  | cons c word ih =>
    obtain ⟨hc, hword⟩ := List.forall_mem_cons.mp hword
    rw [List.cons_append, wordsOfChars.go, if_neg (by simp [hc]), ih hword, List.reverse_cons,
      List.append_assoc, List.singleton_append]

/-- A run that ends is a word. -/
theorem go_of_end (hrun : run ≠ []) (hend : ∀ c ∈ rest.head?, isBlank c = true) :
    wordsOfChars.go run rest = run.reverse :: wordsOfChars.go [] rest := by
  have hempty : run.isEmpty = false := by simpa using hrun
  cases rest with
  | nil => simp [wordsOfChars.go, wordsOfChars.close, hempty]
  | cons c rest =>
    have hc : isBlank c = true := hend c rfl
    simp [wordsOfChars.go, wordsOfChars.close, hempty, hc]

theorem SplitsInto.wordsOfChars_eq {words : List (List Char)} (h : SplitsInto cs words) :
    wordsOfChars cs = words := by
  induction h with
  | @blank gap hgap =>
    rw [wordsOfChars, ← gap.append_nil, go_append_of_blank hgap]
    rfl
  | @word gap word rest words hgap hword hend _ ih =>
    rw [wordsOfChars, List.append_assoc, go_append_of_blank hgap, go_append_of_not_blank hword.2,
      List.append_nil, go_of_end (by simpa using hword.1) hend, List.reverse_reverse,
      ← wordsOfChars, ih]

/-- **The words of a text** are those into which it splits, and it splits in this way only. -/
theorem words_eq_iff {s : String} {tokens : List String} : words s = tokens ↔ Splits s tokens := by
  have hchars : (words s).map String.toList = wordsOfChars s.toList := by
    simp [words, Function.comp_def]
  constructor
  · rintro rfl
    rw [Splits, hchars]
    have hgo : SplitsInto ([].reverse ++ s.toList) (wordsOfChars s.toList) :=
      splitsInto_go (by simp)
    exact hgo
  · intro h
    have hinj : Function.Injective (List.map String.toList) :=
      List.map_injective_iff.mpr fun _ _ => String.toList_inj.mp
    exact hinj (hchars.trans h.wordsOfChars_eq)

/-! ### Margins -/

theorem trimChars_eq (cs : List Char) :
    trimChars cs = (cs.dropWhile isBlank).rdropWhile isBlank :=
  rfl

theorem rdropWhile_cons_of_not_blank (hc : isBlank c = false) :
    (c :: cs).rdropWhile isBlank = c :: cs.rdropWhile isBlank := by
  induction cs using List.reverseRecOn with
  | nil => simp [List.rdropWhile_singleton, hc]
  | append_singleton cs d ih =>
    rw [← List.cons_append, List.rdropWhile_concat, List.rdropWhile_concat, ih]
    split_ifs <;> rfl

/-- From a character that is no white space on, white space is trimmed off the far end only. -/
theorem trimChars_cons_of_not_blank (hc : isBlank c = false) :
    trimChars (c :: cs) = c :: cs.rdropWhile isBlank := by
  rw [trimChars_eq, List.dropWhile_cons_of_neg (by simp [hc]), rdropWhile_cons_of_not_blank hc]

theorem trimChars_append_of_blank (hgap : Blank gap) :
    trimChars (gap ++ cs) = trimChars cs := by
  rw [trimChars_eq, trimChars_eq, List.dropWhile_append_of_pos hgap]

theorem rdropWhile_append_of_blank (hgap : Blank gap) :
    (cs ++ gap).rdropWhile isBlank = cs.rdropWhile isBlank := by
  have hgap' : ∀ c ∈ gap.reverse, isBlank c = true := fun c hc => hgap c (List.mem_reverse.mp hc)
  rw [List.rdropWhile, List.reverse_append, List.dropWhile_append_of_pos hgap', List.rdropWhile]

theorem trimChars_append_gap (hgap : Blank gap) : trimChars (cs ++ gap) = trimChars cs := by
  rw [trimChars_eq, trimChars_eq, List.dropWhile_append]
  split_ifs with hempty
  · rw [List.isEmpty_iff.mp hempty, List.dropWhile_eq_nil_iff.mpr hgap]
  · exact rdropWhile_append_of_blank hgap

/-- A text without white space has no margins. -/
theorem trimChars_of_not_blank (h : ∀ c ∈ cs, isBlank c = false) : trimChars cs = cs := by
  cases cs with
  | nil => rfl
  | cons c cs =>
    rw [trimChars_cons_of_not_blank (h c List.mem_cons_self), List.rdropWhile_eq_self_iff.mpr]
    intro hne
    rw [h _ (List.mem_cons_of_mem c (List.getLast_mem hne))]
    exact Bool.false_ne_true

theorem filter_rdropWhile (cs : List Char) :
    (cs.rdropWhile isBlank).filter (fun c => !isBlank c) = cs.filter fun c => !isBlank c := by
  induction cs using List.reverseRecOn with
  | nil => rfl
  | append_singleton cs d ih =>
    rw [List.rdropWhile_concat]
    split_ifs with hd
    · rw [ih, List.filter_append]
      simp [hd]
    · rfl

/-- Nothing but white space is trimmed off. -/
theorem filter_trimChars (cs : List Char) :
    (trimChars cs).filter (fun c => !isBlank c) = cs.filter fun c => !isBlank c := by
  rw [trimChars_eq, filter_rdropWhile]
  induction cs with
  | nil => rfl
  | cons c cs ih =>
    rw [List.dropWhile_cons]
    split_ifs with hc
    · rw [ih, List.filter_cons_of_neg (by simp [hc])]
    · rfl

end BytecodeDebugger.Text
