import BytecodeDebugger.Proofs.Source.LineMap
import BytecodeDebugger.Proofs.Text.ByteOrder
import BytecodeDebugger.Source.LineMapFile
import Mathlib.Data.List.Forall2

/-!
# What a line map file says

A line map file is read in two steps, and so what it says is told in two.  First its value has a
shape: there are lists of numbers under certain texts, and lines with a breakpoint
(`LineMapDocument.Describes`).  That is so exactly if the value is accepted
(`LineMapDocument.ofJson?_of_describes`, `LineMapDocument.describes_of_ofJson?`), and then its
entries come in the order of their texts (`LineMapDocument.Lists`).

Then each text is read as a position.  Several texts may write one position, such as `16`, `0x10`,
`016` and `+16`, and the order of texts is not that of the positions.  As later entries win, the
greatest text of a position counts (`LineMapDocument.Yields`), and as errors end the reading, the
smallest text with which something is wrong is reported (`LineMapDocument.FirstOffence`).

`LineMap.ofFile_of_document` puts the two together.
-/

/-! ### Lists that are worked off in order -/

/-- Every element has a result, and these are the results. -/
theorem Option.mapM_eq_some_iff {α β : Type} {f : α → Option β} {l : List α} {l' : List β} :
    l.mapM f = some l' ↔ List.Forall₂ (fun a b => f a = some b) l l' := by
  induction l generalizing l' with
  | nil => simp [eq_comm]
  | cons a l ih =>
    rw [List.mapM_cons, List.forall₂_cons_left_iff]
    simp only [Option.bind_eq_bind, Option.bind_eq_some_iff, ih]
    constructor
    · rintro ⟨b, hb, l'', hl, hdone⟩
      exact ⟨b, l'', hb, hl, (Option.some.inj hdone).symm⟩
    · rintro ⟨b, l'', hb, hl, rfl⟩
      exact ⟨b, hb, l'', hl, rfl⟩

namespace List.Forall₂

variable {α β : Type} {R : α → β → Prop} {l : List α} {l' : List β}

theorem exists_of_mem_left (h : Forall₂ R l l') {a : α} (ha : a ∈ l) : ∃ b ∈ l', R a b := by
  induction h with
  | nil => cases ha
  | @cons a' b' _ l' hab _ ih =>
    rcases List.mem_cons.mp ha with rfl | ha
    · exact ⟨b', List.mem_cons_self, hab⟩
    · obtain ⟨b, hb, hab⟩ := ih ha
      exact ⟨b, List.mem_cons_of_mem b' hb, hab⟩

theorem exists_of_mem_right (h : Forall₂ R l l') {b : β} (hb : b ∈ l') : ∃ a ∈ l, R a b :=
  h.flip.exists_of_mem_left hb

/-- What corresponds to the parts of the second list are parts of the first. -/
theorem split_right {before after : List β} {b : β} (h : Forall₂ R l (before ++ b :: after)) :
    ∃ before' a after', l = before' ++ a :: after' ∧ R a b ∧ Forall₂ R after' after := by
  have hdrop := List.forall₂_drop_append l before (b :: after) h
  obtain ⟨a, after', hab, hafter, hl⟩ := List.forall₂_cons_right_iff.mp hdrop
  exact ⟨l.take before.length, a, after', by rw [← hl, List.take_append_drop], hab, hafter⟩

end List.Forall₂

namespace Except

variable {ε α β : Type} {f : α → Except ε β} {a : α} {l : List α}

theorem mapM_cons_of_error {e : ε} (h : f a = .error e) : (a :: l).mapM f = .error e := by
  rw [List.mapM_cons, h]
  rfl

theorem mapM_cons_of_ok {b : β} (h : f a = .ok b) :
    (a :: l).mapM f = (l.mapM f).map (b :: ·) := by
  rw [List.mapM_cons, h]
  show (l.mapM f >>= fun l' => pure (b :: l')) = _
  cases l.mapM f with
  | ok l' => rfl
  | error e => rfl

theorem mapM_eq_ok_iff {l' : List β} :
    l.mapM f = .ok l' ↔ List.Forall₂ (fun a b => f a = .ok b) l l' := by
  induction l generalizing l' with
  | nil => simp [pure, Except.pure, eq_comm]
  | cons a l ih =>
    rw [List.forall₂_cons_left_iff]
    cases ha : f a with
    | error e => simp [mapM_cons_of_error ha]
    | ok b =>
      rw [mapM_cons_of_ok ha]
      simp only [← ih]
      cases l.mapM f with
      | error e => simp [Except.map]
      | ok l'' => simp [Except.map, eq_comm]

/-- The first element that fails is the one that counts. -/
theorem mapM_eq_error_iff {e : ε} : l.mapM f = .error e ↔ ∃ before a after,
    l = before ++ a :: after ∧ (∀ x ∈ before, ∃ b, f x = .ok b) ∧ f a = .error e := by
  induction l with
  | nil => simp [pure, Except.pure]
  | cons a l ih =>
    cases ha : f a with
    | error e' =>
      rw [mapM_cons_of_error ha]
      constructor
      · intro h
        obtain rfl := Except.error.inj h
        exact ⟨[], a, l, rfl, by simp, ha⟩
      · rintro ⟨before, a', after, hl, hbefore, ha'⟩
        cases before with
        | nil =>
          obtain ⟨rfl, rfl⟩ := List.cons.inj hl
          rw [ha] at ha'
          rw [Except.error.inj ha']
        | cons x before =>
          obtain ⟨rfl, rfl⟩ := List.cons.inj hl
          obtain ⟨b, hb⟩ := hbefore a List.mem_cons_self
          rw [ha] at hb
          cases hb
    | ok b =>
      have hmap : (a :: l).mapM f = .error e ↔ l.mapM f = .error e := by
        rw [mapM_cons_of_ok ha]
        cases l.mapM f with
        | error e' => simp [Except.map]
        | ok l' => simp [Except.map]
      rw [hmap, ih]
      constructor
      · rintro ⟨before, a', after, rfl, hbefore, ha'⟩
        refine ⟨a :: before, a', after, rfl, ?_, ha'⟩
        exact List.forall_mem_cons.mpr ⟨⟨b, ha⟩, hbefore⟩
      · rintro ⟨before, a', after, hl, hbefore, ha'⟩
        cases before with
        | nil =>
          obtain ⟨rfl, rfl⟩ := List.cons.inj hl
          rw [ha] at ha'
          cases ha'
        | cons x before =>
          obtain ⟨rfl, rfl⟩ := List.cons.inj hl
          exact ⟨before, a', after, rfl, (List.forall_mem_cons.mp hbefore).2, ha'⟩

end Except

namespace BytecodeDebugger

namespace LineMapDocument

/-! ### What a value describes -/

/-- A value is an array of numbers that can be lines. -/
def IsListOf (value : Json) (numbers : List Nat) : Prop :=
  value = .array (numbers.map .natural) ∧ ∀ n ∈ numbers, n ≤ maxLine

/-- A value is an object with a list of numbers under each of certain texts.  Of members of one name
the last counts. -/
def Indexes (value : Json) (lists : String → Option (List Nat)) : Prop :=
  ∃ members, value = .object members ∧
    ∀ key, Option.Rel IsListOf (Json.member? key members) (lists key)

/-- A value lists lines with a breakpoint, or there is none and so no such line. -/
def IsListOf? (value? : Option Json) (breakpoints : List Nat) : Prop :=
  match value? with
  | some value => IsListOf value breakpoints
  | none => breakpoints = []

/-- A value has the shape of a line map, with these lists of numbers and these lines with a
breakpoint. -/
def Describes (value : Json) (lists : String → Option (List Nat)) (breakpoints : List Nat) : Prop :=
  match value with
  | .object members => ∃ index, Json.member? "pc_pos_map" members = some index ∧
      Indexes index lists ∧ IsListOf? (Json.member? "breakpoints" members) breakpoints
  | .array [index] => Indexes index lists ∧ breakpoints = []
  | .array [index, listed] => Indexes index lists ∧ IsListOf listed breakpoints
  | _ => False

/-- The value that a document is about: what it has under the name `line_number_map`, if it is an
object with such a member, and otherwise the document itself. -/
def Holds (document value : Json) : Prop :=
  (∃ members, document = .object members ∧
    Json.member? "line_number_map" members = some value) ∨
  (∀ members, document = .object members → Json.member? "line_number_map" members = none) ∧
    value = document

/-- A text writes a position, in one of the ways in which a number is written. -/
def Denotes (key : String) (p : Nat) : Prop :=
  Text.readNumber key = .ok p

/-- What is wrong with an entry, if something is: a text that writes no position, whatever stands
under it, or a position with nothing under it. -/
inductive Offends (key : String) : List Nat → LineMapError → Prop
  | invalidPosition {numbers : List Nat} (h : ∀ p, ¬ Denotes key p) :
      Offends key numbers (.invalidPosition key)
  | emptyEntry {p : Nat} (h : Denotes key p) : Offends key [] (.emptyEntry p)

/-- A line map has, for each position, the first number under the greatest text that writes it, and
it has the breakpoints. -/
structure Yields (lists : String → Option (List Nat)) (breakpoints : List Nat) (m : LineMap) :
    Prop where
  line?_eq_some_iff : ∀ p line, m.line? p = some line ↔ ∃ key others,
    lists key = some (line :: others) ∧ Denotes key p ∧
      ∀ key', (lists key').isSome → Denotes key' p → Text.bytes key' ≤ Text.bytes key
  line?_eq_none_iff : ∀ p, m.line? p = none ↔ ∀ key, (lists key).isSome → ¬ Denotes key p
  size_eq : m.size = {p | ∃ key, (lists key).isSome ∧ Denotes key p}.ncard
  breakpointSet_eq : m.breakpointSet = {line | line ∈ breakpoints}

/-- An error is what is wrong with the entry of the smallest text with which something is wrong. -/
def FirstOffence (lists : String → Option (List Nat)) (e : LineMapError) : Prop :=
  ∃ key numbers, lists key = some numbers ∧ Offends key numbers e ∧
    ∀ key' numbers' e', lists key' = some numbers' → Offends key' numbers' e' →
      Text.bytes key ≤ Text.bytes key'

theorem Denotes.inj {key : String} {p p' : Nat} (h : Denotes key p) (h' : Denotes key p') :
    p = p' :=
  Except.ok.inj (h.symm.trans h')

/-! ### Reading the value -/

theorem unwrap_eq_of_holds {document value : Json} (h : Holds document value) :
    unwrap document = value := by
  rcases h with ⟨members, rfl, hmember⟩ | ⟨hnone, rfl⟩
  · rw [unwrap, hmember]
    rfl
  · cases value with
    | object members =>
      rw [unwrap, hnone members rfl]
      rfl
    | _ => rfl

theorem number?_eq_some_iff {value : Json} {n : Nat} :
    number? value = some n ↔ value = .natural n ∧ n ≤ maxLine := by
  cases value with
  | natural m =>
    rw [number?, Option.ite_none_right_eq_some, Json.natural.injEq]
    constructor
    · rintro ⟨hm, hmn⟩
      obtain rfl := Option.some.inj hmn
      exact ⟨rfl, hm⟩
    · rintro ⟨rfl, hm⟩
      exact ⟨hm, rfl⟩
  | _ => simp [number?]

theorem numbers?_eq_some_iff {value : Json} {numbers : List Nat} :
    numbers? value = some numbers ↔ IsListOf value numbers := by
  cases value with
  | array items =>
    rw [numbers?, Option.mapM_eq_some_iff, IsListOf, Json.array.injEq]
    simp only [number?_eq_some_iff]
    constructor
    · intro h
      induction h with
      | nil => simp
      | cons hn _ ih =>
        obtain ⟨rfl, hlines⟩ := ih
        exact ⟨by rw [hn.1, List.map_cons], List.forall_mem_cons.mpr ⟨hn.2, hlines⟩⟩
    · rintro ⟨rfl, hlines⟩
      rw [List.forall₂_map_left_iff, List.forall₂_same]
      exact fun n hn => ⟨rfl, hlines n hn⟩
  | _ => simp [numbers?, IsListOf]

/-- Entries list what stands under each text, the smaller texts first. -/
structure Lists (entries : List (String × List Nat)) (lists : String → Option (List Nat)) :
    Prop where
  pairwise : entries.Pairwise fun entry entry' => entry.1 < entry'.1
  mem_iff : ∀ key numbers, (key, numbers) ∈ entries ↔ lists key = some numbers

theorem mem_sortedMembers {members : List (String × Json)} {key : String} {value : Json} :
    (key, value) ∈ sortedMembers members ↔ Json.member? key members = some value := by
  rw [sortedMembers, Std.TreeMap.mem_toList_iff_getElem?_eq_some, getElem?_foldl_insert,
    Json.member?]

theorem pairwise_sortedMembers (members : List (String × Json)) :
    (sortedMembers members).Pairwise fun m m' => m.1 < m'.1 := by
  have hkeys := Std.TreeMap.ordered_keys_toList
    (t := members.foldl (fun map m => map.insert m.1 m.2) (∅ : Std.TreeMap String Json))
  exact hkeys.imp fun hcompare => compareOfLessAndEq_eq_lt.mp hcompare

/-- The entries of an object are there if there is a list under each of its texts. -/
theorem entries?_eq_some_of_indexes {value : Json} {lists : String → Option (List Nat)}
    (h : Indexes value lists) : ∃ entries, entries? value = some entries ∧ Lists entries lists := by
  obtain ⟨members, rfl, hlists⟩ := h
  have hmember : ∀ m ∈ sortedMembers members,
      ∃ numbers, lists m.1 = some numbers ∧ IsListOf m.2 numbers := by
    intro m hm
    have hrel := hlists m.1
    rw [mem_sortedMembers.mp hm] at hrel
    cases hrel' : lists m.1 with
    | none => rw [hrel'] at hrel; cases hrel
    | some numbers =>
      rw [hrel'] at hrel
      cases hrel with
      | some hlist => exact ⟨numbers, rfl, hlist⟩
  refine ⟨(sortedMembers members).map fun m => (m.1, (lists m.1).getD []), ?_, ?_, ?_⟩
  · rw [entries?, Option.mapM_eq_some_iff, List.forall₂_map_right_iff, List.forall₂_same]
    intro m hm
    obtain ⟨numbers, hnumbers, hlist⟩ := hmember m hm
    rw [numbers?_eq_some_iff.mpr hlist, hnumbers]
    rfl
  · exact List.pairwise_map.mpr (pairwise_sortedMembers members)
  · intro key numbers
    rw [List.mem_map]
    constructor
    · rintro ⟨m, hm, hentry⟩
      obtain ⟨listed, hlisted, -⟩ := hmember m hm
      obtain ⟨rfl, rfl⟩ := Prod.mk.inj hentry
      rw [hlisted]
      rfl
    · intro hnumbers
      have hrel := hlists key
      rw [hnumbers] at hrel
      cases hvalue : Json.member? key members with
      | none => rw [hvalue] at hrel; cases hrel
      | some value => exact ⟨(key, value), mem_sortedMembers.mpr hvalue, by rw [hnumbers]; rfl⟩

theorem indexes_of_entries?_eq_some {members : List (String × Json)}
    {entries : List (String × List Nat)} (h : entries? (.object members) = some entries) :
    Indexes (.object members) fun key => (Json.member? key members).bind numbers? := by
  refine ⟨members, rfl, fun key => ?_⟩
  rw [entries?, Option.mapM_eq_some_iff] at h
  show Option.Rel IsListOf (Json.member? key members) ((Json.member? key members).bind numbers?)
  cases hvalue : Json.member? key members with
  | none => exact .none
  | some value =>
    obtain ⟨entry, -, hentry⟩ := h.exists_of_mem_left (mem_sortedMembers.mpr hvalue)
    obtain ⟨numbers, hnumbers, -⟩ := Option.map_eq_some_iff.mp hentry
    rw [Option.bind_some, hnumbers]
    exact .some (numbers?_eq_some_iff.mp hnumbers)

theorem exists_indexes {value : Json} {entries : List (String × List Nat)}
    (h : entries? value = some entries) : ∃ lists, Indexes value lists := by
  cases value with
  | object members => exact ⟨_, indexes_of_entries?_eq_some h⟩
  | _ => simp [entries?] at h

theorem listOf?_eq_some_iff {value? : Option Json} {breakpoints : List Nat} :
    (value?.map numbers?).getD (some []) = some breakpoints ↔ IsListOf? value? breakpoints := by
  cases value? with
  | none => simp [IsListOf?, eq_comm]
  | some value => exact numbers?_eq_some_iff

theorem ofMembers?_eq_some_iff {index : Json} {value? : Option Json} {d : LineMapDocument} :
    ofMembers? index value? = some d ↔
      entries? index = some d.entries ∧ IsListOf? value? d.breakpoints := by
  rw [← listOf?_eq_some_iff]
  obtain ⟨entries, breakpoints⟩ := d
  simp [ofMembers?, Option.bind_eq_some_iff]

/-- **A value is read exactly if it has the shape**, and then as what it describes. -/
theorem ofJson?_of_describes {value : Json} {lists : String → Option (List Nat)}
    {breakpoints : List Nat} (h : Describes value lists breakpoints) :
    ∃ entries, ofJson? value = some ⟨entries, breakpoints⟩ ∧ Lists entries lists := by
  unfold Describes at h
  split at h
  · obtain ⟨index, hindex, hindexes, hlisted⟩ := h
    obtain ⟨entries, hentries, hlists⟩ := entries?_eq_some_of_indexes hindexes
    refine ⟨entries, ?_, hlists⟩
    rw [ofJson?, hindex]
    exact ofMembers?_eq_some_iff.mpr ⟨hentries, hlisted⟩
  · obtain ⟨hindexes, hlisted⟩ := h
    obtain ⟨entries, hentries, hlists⟩ := entries?_eq_some_of_indexes hindexes
    exact ⟨entries, ofMembers?_eq_some_iff.mpr ⟨hentries, hlisted⟩, hlists⟩
  · obtain ⟨hindexes, hlisted⟩ := h
    obtain ⟨entries, hentries, hlists⟩ := entries?_eq_some_of_indexes hindexes
    exact ⟨entries, ofMembers?_eq_some_iff.mpr ⟨hentries, hlisted⟩, hlists⟩
  · exact h.elim

theorem describes_of_ofJson? {value : Json} {d : LineMapDocument} (h : ofJson? value = some d) :
    ∃ lists, Describes value lists d.breakpoints := by
  unfold ofJson? at h
  split at h
  · obtain ⟨index, hindex, hread⟩ := Option.bind_eq_some_iff.mp h
    obtain ⟨hentries, hlisted⟩ := ofMembers?_eq_some_iff.mp hread
    obtain ⟨lists, hlists⟩ := exists_indexes hentries
    exact ⟨lists, index, hindex, hlists, hlisted⟩
  · obtain ⟨hentries, hlisted⟩ := ofMembers?_eq_some_iff.mp h
    obtain ⟨lists, hlists⟩ := exists_indexes hentries
    exact ⟨lists, hlists, hlisted⟩
  · obtain ⟨hentries, hlisted⟩ := ofMembers?_eq_some_iff.mp h
    obtain ⟨lists, hlists⟩ := exists_indexes hentries
    exact ⟨lists, hlists, hlisted⟩
  · cases h

/-! ### Taking the positions -/

theorem position_eq_ok_iff {entry : String × List Nat} {p line : Nat} :
    position entry = .ok (p, line) ↔ Denotes entry.1 p ∧ ∃ others, entry.2 = line :: others := by
  obtain ⟨key, numbers⟩ := entry
  unfold position Denotes
  cases Text.readNumber key with
  | error fault => simp
  | ok p' =>
    cases numbers with
    | nil => simp
    | cons line' others => simp

theorem position_eq_error_iff {entry : String × List Nat} {e : LineMapError} :
    position entry = .error e ↔ Offends entry.1 entry.2 e := by
  obtain ⟨key, numbers⟩ := entry
  unfold position
  cases hread : Text.readNumber key with
  | error fault =>
    constructor
    · intro h
      obtain rfl := Except.error.inj h
      exact .invalidPosition fun p hp => by cases hread.symm.trans hp
    · intro h
      cases h with
      | invalidPosition => rfl
      | emptyEntry hp => cases hread.symm.trans hp
  | ok p =>
    cases numbers with
    | nil =>
      constructor
      · intro h
        obtain rfl := Except.error.inj h
        exact .emptyEntry hread
      · intro h
        cases h with
        | invalidPosition hp => exact absurd hread (hp p)
        | emptyEntry hp => rw [Denotes.inj hread hp]
    | cons line others =>
      constructor
      · intro h
        cases h
      · intro h
        cases h with
        | invalidPosition hp => exact absurd hread (hp p)

section

variable {entries : List (String × List Nat)} {lists : String → Option (List Nat)}
  {positions : List (Nat × Nat)} {breakpoints : List Nat}

/-- There is a position with its line for each entry, and there are no others. -/
theorem mem_of_mapM (hlists : Lists entries lists) (hmap : entries.mapM position = .ok positions)
    {p line : Nat} (h : (p, line) ∈ positions) :
    ∃ key others, lists key = some (line :: others) ∧ Denotes key p := by
  obtain ⟨⟨key, numbers⟩, hmem, hposition⟩ :=
    (Except.mapM_eq_ok_iff.mp hmap).exists_of_mem_right h
  obtain ⟨hdenotes, others, rfl⟩ := position_eq_ok_iff.mp hposition
  exact ⟨key, others, (hlists.mem_iff key _).mp hmem, hdenotes⟩

theorem exists_mem_of_denotes (hlists : Lists entries lists)
    (hmap : entries.mapM position = .ok positions) {key : String} {p : Nat}
    (hkey : (lists key).isSome) (hdenotes : Denotes key p) : ∃ line, (p, line) ∈ positions := by
  obtain ⟨numbers, hnumbers⟩ := Option.isSome_iff_exists.mp hkey
  have hmem := (hlists.mem_iff key numbers).mpr hnumbers
  obtain ⟨⟨p', line⟩, hline, hposition⟩ :=
    (Except.mapM_eq_ok_iff.mp hmap).exists_of_mem_left hmem
  obtain ⟨hdenotes', -⟩ := position_eq_ok_iff.mp hposition
  obtain rfl := hdenotes.inj hdenotes'
  exact ⟨line, hline⟩

/-- The position that counts, the last one in the list, comes from the greatest text. -/
theorem greatest_of_find? (hlists : Lists entries lists)
    (hmap : entries.mapM position = .ok positions) {p line : Nat}
    (hfind : positions.reverse.find? (fun entry => entry.1 == p) = some (p, line)) :
    ∃ key others, lists key = some (line :: others) ∧ Denotes key p ∧
      ∀ key', (lists key').isSome → Denotes key' p → Text.bytes key' ≤ Text.bytes key := by
  obtain ⟨-, after, before, hpositions, hafter⟩ := List.find?_eq_some_iff_append.mp hfind
  have hsplit : positions = before.reverse ++ (p, line) :: after.reverse := by
    rw [← List.reverse_reverse positions, hpositions]
    simp
  have hforall := Except.mapM_eq_ok_iff.mp hmap
  rw [hsplit] at hforall
  obtain ⟨smaller, ⟨key, numbers⟩, greater, hentries, hposition, hgreater⟩ := hforall.split_right
  obtain ⟨hdenotes, others, rfl⟩ := position_eq_ok_iff.mp hposition
  have hmem : (key, line :: others) ∈ entries := by
    rw [hentries]
    exact List.mem_append_right _ List.mem_cons_self
  refine ⟨key, others, (hlists.mem_iff _ _).mp hmem, hdenotes, fun key' hkey' hdenotes' => ?_⟩
  obtain ⟨numbers', hnumbers'⟩ := Option.isSome_iff_exists.mp hkey'
  have hmem' := (hlists.mem_iff key' numbers').mpr hnumbers'
  have hordered := hlists.pairwise
  rw [hentries, List.pairwise_append] at hordered
  rw [hentries, List.mem_append, List.mem_cons] at hmem'
  rw [Text.bytes_le_bytes_iff]
  rcases hmem' with hsmaller | heq | hgreater'
  · exact Std.le_of_lt (hordered.2.2 _ hsmaller _ List.mem_cons_self)
  · exact Std.le_of_eq (congrArg Prod.fst heq)
  -- A greater text would have put its own line in later.
  · obtain ⟨⟨p', line'⟩, hline', hposition'⟩ := hgreater.exists_of_mem_left hgreater'
    obtain ⟨hdenotes'', -⟩ := position_eq_ok_iff.mp hposition'
    obtain rfl := hdenotes'.inj hdenotes''
    have hother := hafter _ (List.mem_reverse.mp hline')
    simp at hother

/-- **The line map has the shape that the texts ask for.** -/
theorem yields_ofLists (hlists : Lists entries lists)
    (hmap : entries.mapM position = .ok positions) :
    Yields lists breakpoints (LineMap.ofLists positions breakpoints) := by
  have hnone : ∀ p, (LineMap.ofLists positions breakpoints).line? p = none ↔
      ∀ key, (lists key).isSome → ¬ Denotes key p := by
    intro p
    rw [LineMap.line?_ofLists, Option.map_eq_none_iff, List.find?_eq_none]
    constructor
    · intro h key hkey hdenotes
      obtain ⟨line, hline⟩ := exists_mem_of_denotes hlists hmap hkey hdenotes
      exact h _ (List.mem_reverse.mpr hline) (beq_self_eq_true p)
    · rintro h ⟨p', line⟩ hline hp
      obtain rfl := eq_of_beq hp
      obtain ⟨key, others, hkey, hdenotes⟩ :=
        mem_of_mapM hlists hmap (List.mem_reverse.mp hline)
      exact h key (by rw [hkey]; rfl) hdenotes
  have hsome : ∀ p line, (LineMap.ofLists positions breakpoints).line? p = some line →
      ∃ key others, lists key = some (line :: others) ∧ Denotes key p ∧
        ∀ key', (lists key').isSome → Denotes key' p → Text.bytes key' ≤ Text.bytes key := by
    intro p line h
    rw [LineMap.line?_ofLists, Option.map_eq_some_iff] at h
    obtain ⟨⟨p', line'⟩, hfind, rfl⟩ := h
    obtain rfl : p' = p := by simpa using List.find?_some hfind
    exact greatest_of_find? hlists hmap hfind
  refine ⟨fun p line => ⟨hsome p line, ?_⟩, hnone, ?_, LineMap.breakpointSet_ofLists _ _⟩
  · rintro ⟨key, others, hkey, hdenotes, hgreatest⟩
    cases hline : (LineMap.ofLists positions breakpoints).line? p with
    | none => exact absurd hdenotes ((hnone p).mp hline key (by rw [hkey]; rfl))
    | some line' =>
      obtain ⟨key', others', hkey', hdenotes', hgreatest'⟩ := hsome p line' hline
      have hle := Text.bytes_le_bytes_iff.mp (hgreatest key' (by rw [hkey']; rfl) hdenotes')
      have hge := Text.bytes_le_bytes_iff.mp (hgreatest' key (by rw [hkey]; rfl) hdenotes)
      obtain rfl := Std.le_antisymm hle hge
      rw [hkey'] at hkey
      rw [(List.cons.inj (Option.some.inj hkey)).1]
  · rw [LineMap.size_eq_ncard]
    congr 1
    ext p
    show ((LineMap.ofLists positions breakpoints).line? p).isSome ↔ _
    rw [Option.isSome_iff_ne_none, ne_eq, hnone]
    push Not
    rfl

/-- Something is wrong with an entry, or the positions of all can be taken. -/
theorem mapM_eq_ok_iff_forall (hlists : Lists entries lists) :
    (∃ positions, entries.mapM position = .ok positions) ↔
      ∀ key numbers, lists key = some numbers → (∃ p, Denotes key p) ∧ numbers ≠ [] := by
  have hok : ∀ entry : String × List Nat, (∃ pair, position entry = .ok pair) ↔
      (∃ p, Denotes entry.1 p) ∧ entry.2 ≠ [] := by
    rintro ⟨key, numbers⟩
    constructor
    · rintro ⟨⟨p, line⟩, hposition⟩
      obtain ⟨hdenotes, others, rfl⟩ := position_eq_ok_iff.mp hposition
      exact ⟨⟨p, hdenotes⟩, List.cons_ne_nil _ _⟩
    · rintro ⟨⟨p, hdenotes⟩, hne⟩
      obtain ⟨line, others, hnumbers⟩ := List.exists_cons_of_ne_nil hne
      exact ⟨(p, line), position_eq_ok_iff.mpr ⟨hdenotes, others, hnumbers⟩⟩
  constructor
  · rintro ⟨positions, hmap⟩ key numbers hnumbers
    obtain ⟨pair, -, hposition⟩ := (Except.mapM_eq_ok_iff.mp hmap).exists_of_mem_left
      ((hlists.mem_iff key numbers).mpr hnumbers)
    exact (hok (key, numbers)).mp ⟨pair, hposition⟩
  · intro h
    cases hmap : entries.mapM position with
    | ok positions => exact ⟨positions, rfl⟩
    | error e =>
      obtain ⟨before, ⟨key, numbers⟩, after, hentries, -, herror⟩ :=
        Except.mapM_eq_error_iff.mp hmap
      have hmem : (key, numbers) ∈ entries := by
        rw [hentries]
        exact List.mem_append_right _ List.mem_cons_self
      obtain ⟨pair, hposition⟩ := (hok (key, numbers)).mpr (h _ _ ((hlists.mem_iff _ _).mp hmem))
      rw [hposition] at herror
      cases herror

theorem firstOffence_of_mapM (hlists : Lists entries lists) {e : LineMapError}
    (hmap : entries.mapM position = .error e) : FirstOffence lists e := by
  obtain ⟨before, ⟨key, numbers⟩, after, hentries, hbefore, herror⟩ :=
    Except.mapM_eq_error_iff.mp hmap
  have hmem : (key, numbers) ∈ entries := by
    rw [hentries]
    exact List.mem_append_right _ List.mem_cons_self
  refine ⟨key, numbers, (hlists.mem_iff _ _).mp hmem, position_eq_error_iff.mp herror, ?_⟩
  intro key' numbers' e' hnumbers' hoffends'
  have hmem' := (hlists.mem_iff key' numbers').mpr hnumbers'
  have hordered := hlists.pairwise
  rw [hentries, List.pairwise_append, List.pairwise_cons] at hordered
  rw [hentries, List.mem_append, List.mem_cons] at hmem'
  rw [Text.bytes_le_bytes_iff]
  rcases hmem' with hsmaller | heq | hgreater
  · obtain ⟨pair, hposition⟩ := hbefore _ hsmaller
    rw [position_eq_error_iff.mpr hoffends'] at hposition
    cases hposition
  · exact Std.le_of_eq (congrArg Prod.fst heq).symm
  · exact Std.le_of_lt (hordered.2.1.1 _ hgreater)

/-- No two errors are the first. -/
theorem FirstOffence.inj {e e' : LineMapError} (h : FirstOffence lists e)
    (h' : FirstOffence lists e') : e = e' := by
  obtain ⟨key, numbers, hnumbers, hoffends, hsmallest⟩ := h
  obtain ⟨key', numbers', hnumbers', hoffends', hsmallest'⟩ := h'
  have hle := Text.bytes_le_bytes_iff.mp (hsmallest _ _ _ hnumbers' hoffends')
  have hge := Text.bytes_le_bytes_iff.mp (hsmallest' _ _ _ hnumbers hoffends)
  obtain rfl := Std.le_antisymm hle hge
  obtain rfl := Option.some.inj (hnumbers.symm.trans hnumbers')
  have herror : position (key, numbers) = .error e := position_eq_error_iff.mpr hoffends
  have herror' : position (key, numbers) = .error e' := position_eq_error_iff.mpr hoffends'
  exact Except.error.inj (herror.symm.trans herror')

end

end LineMapDocument

namespace LineMap

open LineMapDocument

/-- Reads the map off the entries of a document that has the shape. -/
theorem ofFileBy_eq {read? : String → Option Json} {text : String} {document value : Json}
    {lists : String → Option (List Nat)} {breakpoints : List Nat}
    (hdoc : read? text = some document) (hvalue : Holds document value)
    (hdescribes : Describes value lists breakpoints) : ∃ entries, Lists entries lists ∧
      ofFileBy read? text = (entries.mapM position).map (ofLists · breakpoints) := by
  obtain ⟨entries, hread, hlists⟩ := ofJson?_of_describes hdescribes
  refine ⟨entries, hlists, ?_⟩
  rw [ofFileBy, hdoc, Option.bind_some, Function.comp_apply, unwrap_eq_of_holds hvalue, hread]
  show entries.mapM position >>= (fun positions => pure (ofLists positions breakpoints)) = _
  cases entries.mapM position with
  | ok positions => rfl
  | error e => rfl

/-- **What a file says**, whichever way documents are read.  A file that holds a value of another
shape is refused as a whole.  One that holds the lists of a line map is accepted exactly if every
text that there is a list under writes a position, and no list is empty.  Its line map then goes by
the greatest of the texts that write a position.  Otherwise the error is what is wrong with the
smallest text with which something is wrong. -/
theorem ofFile_of_document {read? : String → Option Json} {text : String} {document value : Json}
    (hdoc : read? text = some document) (hvalue : Holds document value) :
    ((¬ ∃ lists breakpoints, Describes value lists breakpoints) →
      ofFileBy read? text = .error .badDocument) ∧
    ∀ lists breakpoints, Describes value lists breakpoints →
      ((∃ m, ofFileBy read? text = .ok m) ↔
        ∀ key numbers, lists key = some numbers → (∃ p, Denotes key p) ∧ numbers ≠ []) ∧
      (∀ m, ofFileBy read? text = .ok m → Yields lists breakpoints m) ∧
      (∀ e, ofFileBy read? text = .error e ↔ FirstOffence lists e) := by
  constructor
  · intro hnone
    rw [ofFileBy, hdoc, Option.bind_some, Function.comp_apply, unwrap_eq_of_holds hvalue]
    cases hread : ofJson? value with
    | none => rfl
    | some d =>
      obtain ⟨lists, hdescribes⟩ := describes_of_ofJson? hread
      exact absurd ⟨lists, d.breakpoints, hdescribes⟩ hnone
  · intro lists breakpoints hdescribes
    obtain ⟨entries, hlists, hfile⟩ := ofFileBy_eq hdoc hvalue hdescribes
    rw [hfile, ← mapM_eq_ok_iff_forall hlists]
    cases hmap : entries.mapM position with
    | ok positions =>
      refine ⟨by simp [Except.map], fun m hm => ?_, fun e => ?_⟩
      · obtain rfl := Except.ok.inj hm
        exact yields_ofLists hlists hmap
      · constructor
        · intro h
          cases h
        · rintro ⟨key, numbers, hnumbers, hoffends, -⟩
          obtain ⟨pair, -, hposition⟩ := (Except.mapM_eq_ok_iff.mp hmap).exists_of_mem_left
            ((hlists.mem_iff key numbers).mpr hnumbers)
          rw [position_eq_error_iff.mpr hoffends] at hposition
          cases hposition
    | error e =>
      have hfirst := firstOffence_of_mapM hlists hmap
      refine ⟨by simp [Except.map], fun m hm => ?_, fun e' => ?_⟩
      · cases hm
      · constructor
        · intro h
          rw [← Except.error.inj h]
          exact hfirst
        · intro hfirst'
          rw [hfirst.inj hfirst']
          rfl

/-- The position 16 is written in two ways, and what is under the greater text counts. -/
theorem ofFile_of_document_spellings : ∃ m,
    ofFile "[\x7b\"16\": [4], \"0x10\": [3, 1], \"9\": [1]\x7d, [7]]" = .ok m ∧
      m.line? 16 = some 4 ∧ m.line? 10 = none ∧ m.breakpointSet = {7} := by
  let members := [("16", Json.array [.natural 4]), ("0x10", .array [.natural 3, .natural 1]),
    ("9", .array [.natural 1])]
  let lists (key : String) := (Json.member? key members).bind numbers?
  have hdoc : Json.read? "[\x7b\"16\": [4], \"0x10\": [3, 1], \"9\": [1]\x7d, [7]]" =
      some (.array [.object members, .array [.natural 7]]) := by rfl
  have hvalue : Holds (.array [.object members, .array [.natural 7]])
      (.array [.object members, .array [.natural 7]]) := .inr ⟨by simp, rfl⟩
  have hentries : entries? (.object members) =
      some [("0x10", [3, 1]), ("16", [4]), ("9", [1])] := by decide +kernel
  have hindexes : Indexes (.object members) lists := indexes_of_entries?_eq_some hentries
  have hlists : ∀ key numbers, lists key = some numbers → key = "0x10" ∧ numbers = [3, 1] ∨
      key = "16" ∧ numbers = [4] ∨ key = "9" ∧ numbers = [1] := by
    intro key numbers h
    obtain ⟨entries, hentries', hlists⟩ := entries?_eq_some_of_indexes hindexes
    obtain rfl := Option.some.inj (hentries.symm.trans hentries')
    have hmem := (hlists.mem_iff key numbers).mpr h
    simpa only [List.mem_cons, Prod.mk.injEq, List.not_mem_nil, or_false] using hmem
  have h9 : Denotes "9" 9 := by rfl
  have h0x10 : Denotes "0x10" 16 := by rfl
  have h16 : Denotes "16" 16 := by rfl
  obtain ⟨hok, hyields, -⟩ := (ofFile_of_document hdoc hvalue).2 lists [7]
    ⟨hindexes, rfl, by decide⟩
  obtain ⟨m, hm⟩ := hok.mpr (by
    intro key numbers h
    rcases hlists key numbers h with ⟨rfl, rfl⟩ | ⟨rfl, rfl⟩ | ⟨rfl, rfl⟩
    · exact ⟨⟨16, h0x10⟩, by simp⟩
    · exact ⟨⟨16, h16⟩, by simp⟩
    · exact ⟨⟨9, h9⟩, by simp⟩)
  have hmap := hyields m hm
  refine ⟨m, hm, (hmap.line?_eq_some_iff 16 4).mpr ⟨"16", [], rfl, h16, ?_⟩,
    (hmap.line?_eq_none_iff 10).mpr ?_, by simpa using hmap.breakpointSet_eq⟩
  · intro key hkey hdenotes
    obtain ⟨numbers, hnumbers⟩ := Option.isSome_iff_exists.mp hkey
    rw [Text.bytes_le_bytes_iff]
    rcases hlists key numbers hnumbers with ⟨rfl, -⟩ | ⟨rfl, -⟩ | ⟨rfl, -⟩
    · decide
    · decide
    · exact absurd (hdenotes.inj h9) (by decide)
  · intro key hkey hdenotes
    obtain ⟨numbers, hnumbers⟩ := Option.isSome_iff_exists.mp hkey
    rcases hlists key numbers hnumbers with ⟨rfl, -⟩ | ⟨rfl, -⟩ | ⟨rfl, -⟩
    · exact absurd (hdenotes.inj h0x10) (by decide)
    · exact absurd (hdenotes.inj h16) (by decide)
    · exact absurd (hdenotes.inj h9) (by decide)

end LineMap

end BytecodeDebugger
