import BytecodeDebugger.Source.LineMap
import Mathlib.Data.Set.Card

/-!
# The set of breakpoints

A line map holds a set of lines with a breakpoint (`LineMap.breakpointSet`).  Setting and deleting
breakpoints one after another edits that set as a set (`LineMap.breakpointSet_applyEdits`), and
leaves the lines of positions alone (`LineMap.line?_applyEdits`).  The list of breakpoints is the
set in ascending order (`LineMap.mem_breakpointLines`, `LineMap.pairwise_breakpointLines`).

A line map that is made of lists has the last line that is listed for a position
(`LineMap.line?_ofLists`), and its size is the number of positions (`LineMap.size_eq_ncard`).
-/

namespace BytecodeDebugger

/-- An edit of the breakpoints. -/
inductive BreakpointEdit where
  | add (line : Nat)
  | remove (line : Nat)
deriving DecidableEq, Repr

/-- A set of lines after an edit. -/
def BreakpointEdit.applyTo (lines : Set Nat) : BreakpointEdit → Set Nat
  | add line => insert line lines
  | remove line => lines \ {line}

/-- Of entries that are put into a map one after another, the last one of each key stays. -/
theorem getElem?_foldl_insert {α β : Type} [Ord α] [BEq α] [LawfulBEq α] [Std.TransOrd α]
    [Std.LawfulEqOrd α] (entries : List (α × β)) (key : α) :
    (entries.foldl (fun map entry => map.insert entry.1 entry.2) (∅ : Std.TreeMap α β))[key]? =
      (entries.reverse.find? fun entry => entry.1 == key).map (·.2) := by
  induction entries using List.reverseRecOn with
  | nil => exact Std.TreeMap.getElem?_emptyc
  | append_singleton entries last ih =>
    rw [List.foldl_concat, Std.TreeMap.getElem?_insert, ih, List.reverse_concat, List.find?_cons]
    by_cases hkey : last.1 = key
    · simp [hkey]
    · have hcompare : compare last.1 key ≠ .eq := fun h => hkey (Std.LawfulEqOrd.eq_of_compare h)
      rw [if_neg hcompare, beq_false_of_ne hkey]

namespace LineMap

/-- The lines with a breakpoint, as a set. -/
def breakpointSet (m : LineMap) : Set Nat :=
  {line | m.hasBreakpoint line = true}

/-- The line map after an edit. -/
def applyEdit (m : LineMap) : BreakpointEdit → LineMap
  | .add line => m.addBreakpoint line
  | .remove line => m.removeBreakpoint line

/-- The line map after edits, one after another. -/
def applyEdits (m : LineMap) (edits : List BreakpointEdit) : LineMap :=
  edits.foldl applyEdit m

instance (m : LineMap) (line : Nat) : Decidable (line ∈ m.breakpointSet) :=
  inferInstanceAs (Decidable (m.hasBreakpoint line = true))

theorem mem_breakpointSet {m : LineMap} {line : Nat} :
    line ∈ m.breakpointSet ↔ m.hasBreakpoint line = true :=
  Iff.rfl

@[simp] theorem line?_applyEdit (m : LineMap) (edit : BreakpointEdit) (position : Nat) :
    (m.applyEdit edit).line? position = m.line? position := by
  cases edit <;> rfl

@[simp] theorem line?_applyEdits (m : LineMap) (edits : List BreakpointEdit) (position : Nat) :
    (m.applyEdits edits).line? position = m.line? position := by
  induction edits generalizing m with
  | nil => rfl
  | cons edit edits ih => exact (ih (m.applyEdit edit)).trans (line?_applyEdit m edit position)

theorem applyEdits_append (m : LineMap) (edits edits' : List BreakpointEdit) :
    m.applyEdits (edits ++ edits') = (m.applyEdits edits).applyEdits edits' :=
  List.foldl_append

theorem breakpointSet_applyEdit (m : LineMap) (edit : BreakpointEdit) :
    (m.applyEdit edit).breakpointSet = edit.applyTo m.breakpointSet := by
  ext line
  rw [mem_breakpointSet]
  cases edit with
  | add added =>
    simp only [applyEdit, BreakpointEdit.applyTo, Set.mem_insert_iff, mem_breakpointSet,
      hasBreakpoint, addBreakpoint, Std.TreeSet.contains_insert, Bool.or_eq_true, beq_iff_eq,
      Nat.compare_eq_eq, eq_comm (a := added)]
  | remove removed =>
    simp only [applyEdit, BreakpointEdit.applyTo, Set.mem_sdiff, Set.mem_singleton_iff,
      mem_breakpointSet, hasBreakpoint, removeBreakpoint, Std.TreeSet.contains_erase,
      Bool.and_eq_true, bne_iff_ne, ne_eq, Nat.compare_eq_eq, eq_comm (a := removed), and_comm]

@[simp] theorem lines_applyEdits (m : LineMap) (edits : List BreakpointEdit) :
    (m.applyEdits edits).lines = m.lines := by
  induction edits generalizing m with
  | nil => rfl
  | cons edit edits ih =>
    have hedit : (m.applyEdit edit).lines = m.lines := by cases edit <;> rfl
    exact (ih (m.applyEdit edit)).trans hedit

theorem mem_breakpointLines {m : LineMap} {line : Nat} :
    line ∈ m.breakpointLines ↔ line ∈ m.breakpointSet := by
  rw [breakpointLines, Std.TreeSet.mem_toList, mem_breakpointSet]
  exact Std.TreeSet.mem_iff_contains

theorem pairwise_breakpointLines (m : LineMap) : m.breakpointLines.Pairwise (· < ·) :=
  Std.TreeSet.ordered_toList.imp Nat.compare_eq_lt.mp

/-- A line is reachable if it is the line of a position. -/
theorem isReachable_iff {m : LineMap} {line : Nat} :
    m.isReachable line = true ↔ ∃ position, m.line? position = some line := by
  simp [isReachable, positionsOf, line?, List.filter_eq_nil_iff,
    Std.TreeMap.mem_toList_iff_getElem?_eq_some]

/-- The edited line map holds the edited set. -/
theorem breakpointSet_applyEdits (m : LineMap) (edits : List BreakpointEdit) :
    (m.applyEdits edits).breakpointSet = edits.foldl BreakpointEdit.applyTo m.breakpointSet := by
  induction edits generalizing m with
  | nil => rfl
  | cons edit edits ih =>
    rw [List.foldl_cons, ← breakpointSet_applyEdit]
    exact ih (m.applyEdit edit)

/-! ### Line maps from lists -/

/-- The line of a position is that of its last entry. -/
theorem line?_ofLists (lines : List (Nat × Nat)) (breakpoints : List Nat) (position : Nat) :
    (ofLists lines breakpoints).line? position =
      (lines.reverse.find? fun entry => entry.1 == position).map (·.2) :=
  getElem?_foldl_insert lines position

theorem breakpointSet_ofLists (lines : List (Nat × Nat)) (breakpoints : List Nat) :
    (ofLists lines breakpoints).breakpointSet = {line | line ∈ breakpoints} := by
  ext line
  show (breakpoints.foldl (fun set line => set.insert line) (∅ : Std.TreeSet Nat)).contains line =
    true ↔ line ∈ breakpoints
  induction breakpoints using List.reverseRecOn with
  | nil => simp
  | append_singleton breakpoints last ih =>
    rw [List.foldl_concat, Std.TreeSet.contains_insert, Bool.or_eq_true, ih, List.mem_append,
      List.mem_singleton, beq_iff_eq, Nat.compare_eq_eq, or_comm, eq_comm]

/-- The size of a line map is the number of positions that have a line. -/
theorem size_eq_ncard (m : LineMap) : m.size = {position | (m.line? position).isSome}.ncard := by
  have hkeys : {position | (m.line? position).isSome} = {position | position ∈ m.lines.keys} := by
    ext position
    show (m.lines[position]?).isSome ↔ position ∈ m.lines.keys
    rw [Std.TreeMap.mem_keys, Std.TreeMap.mem_iff_isSome_getElem?]
  have hnodup : m.lines.keys.Nodup := Std.TreeMap.nodup_keys
  calc m.size
      = m.lines.keys.length := Std.TreeMap.length_keys.symm
    _ = m.lines.keys.toFinset.card := (List.toFinset_card_of_nodup hnodup).symm
    _ = (m.lines.keys.toFinset : Set Nat).ncard := (Set.ncard_coe_finset _).symm
    _ = _ := by rw [hkeys, List.coe_toFinset]

end LineMap

end BytecodeDebugger
