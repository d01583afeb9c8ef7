import BytecodeDebugger.Proofs.Session.Reply
import BytecodeDebugger.Source.Text
import Mathlib.Algebra.Order.Ring.Int

/-!
# Source lines around a line

Lines that follow each other are found up to the end of the text and no further
(`SourceText.linesFrom_add`, `SourceText.mem_linesFrom_iff`).  So the lines around a line are the
ones that are near enough and exist, without a gap (`SourceText.mem_context_iff`,
`SourceText.map_number_context`), and a greater radius adds lines at the two ends only
(`SourceText.context_infix`).

`SourceText.context_exact` puts this together, and says what is shown in a session.
-/

namespace BytecodeDebugger

namespace SourceText

variable {s : SourceText} {entry : SourceLine} {first count line radius radius' n : Nat}

/-! ### Lines that follow each other -/

theorem isSome_line?_iff : (s.line? n).isSome ↔ 1 ≤ n ∧ n ≤ s.size := by
  cases n with
  | zero => simp [line?]
  | succ below => simp [line?, size]

theorem line?_eq_none_iff : s.line? n = none ↔ n = 0 ∨ s.size < n := by
  rw [← Option.not_isSome_iff_eq_none, isSome_line?_iff]
  omega

theorem linesFrom_of_none (h : s.line? first = none) (count : Nat) :
    s.linesFrom first count = [] := by
  cases count with
  | zero => rfl
  | succ count => rw [linesFrom, h]

theorem linesFrom_of_some {text : String} (h : s.line? first = some text) (count : Nat) :
    s.linesFrom first (count + 1) = ⟨first, text⟩ :: s.linesFrom (first + 1) count := by
  rw [linesFrom, h]

/-- More lines are found behind those that are found already. -/
theorem linesFrom_add (hfirst : 1 ≤ first) (count count' : Nat) :
    s.linesFrom first (count + count') =
      s.linesFrom first count ++ s.linesFrom (first + count) count' := by
  induction count generalizing first with
  | zero => rw [Nat.zero_add, Nat.add_zero]; rfl
  | succ count ih =>
    cases hline : s.line? first with
    | none =>
      -- Behind a line that does not exist there is none.
      have hbehind : s.line? (first + (count + 1)) = none := by
        rw [line?_eq_none_iff] at hline ⊢
        omega
      rw [linesFrom_of_none hline, linesFrom_of_none hline, linesFrom_of_none hbehind]
      rfl
    | some text =>
      rw [Nat.add_right_comm, linesFrom_of_some hline, linesFrom_of_some hline, ih (by omega),
        List.cons_append, Nat.add_right_comm first 1, Nat.add_assoc first]

/-- The lines that are found are those of the range that exist. -/
theorem mem_linesFrom_iff (hfirst : 1 ≤ first) :
    entry ∈ s.linesFrom first count ↔
      first ≤ entry.number ∧ entry.number < first + count ∧
        s.line? entry.number = some entry.text := by
  induction count generalizing first with
  | zero =>
    simp only [linesFrom, List.not_mem_nil, false_iff]
    omega
  | succ count ih =>
    cases hline : s.line? first with
    | none =>
      rw [linesFrom_of_none hline]
      simp only [List.not_mem_nil, false_iff]
      rintro ⟨hle, -, htext⟩
      have hsome := isSome_line?_iff.mp (Option.isSome_of_eq_some htext)
      rw [line?_eq_none_iff] at hline
      omega
    | some text =>
      rw [linesFrom_of_some hline, List.mem_cons, ih (by omega)]
      constructor
      · rintro (rfl | ⟨hle, hlt, htext⟩)
        · exact ⟨le_rfl, by show first < _; omega, hline⟩
        · exact ⟨by omega, by omega, htext⟩
      · rintro ⟨hle, hlt, htext⟩
        obtain heq | hne := Nat.eq_or_lt_of_le hle
        · left
          obtain ⟨number, text'⟩ := entry
          obtain rfl : first = number := heq
          exact congrArg _ (Option.some_inj.mp (htext.symm.trans hline))
        · exact .inr ⟨hne, by omega, htext⟩

/-- The lines that are found are numbered one after another. -/
theorem map_number_linesFrom :
    ∃ length, (s.linesFrom first count).map (·.number) = List.range' first length := by
  induction count generalizing first with
  | zero => exact ⟨0, rfl⟩
  | succ count ih =>
    cases hline : s.line? first with
    | none => exact ⟨0, by rw [linesFrom_of_none hline]; rfl⟩
    | some text =>
      obtain ⟨length, hlength⟩ := @ih (first + 1)
      exact ⟨length + 1, by rw [linesFrom_of_some hline, List.map_cons, hlength]; rfl⟩

/-! ### Lines around a line -/

/-- The lines around a line are those that are near enough and exist. -/
theorem mem_context_iff (hsize : s.size ≤ maxLine) :
    entry ∈ s.context line radius ↔
      |(entry.number : ℤ) - line| ≤ radius ∧ s.line? entry.number = some entry.text := by
  rw [context, mem_linesFrom_iff (le_max_right _ _), saturatingAdd, abs_le, ← and_assoc]
  refine and_congr_left fun htext => ?_
  have hexists := isSome_line?_iff.mp (Option.isSome_of_eq_some htext)
  omega

theorem map_number_context (s : SourceText) (line radius : Nat) :
    ∃ first length, (s.context line radius).map (·.number) = List.range' first length :=
  ⟨_, map_number_linesFrom⟩

/-- A greater radius adds lines at the two ends. -/
theorem context_infix (s : SourceText) (line : Nat) (hradius : radius ≤ radius') :
    s.context line radius <:+: s.context line radius' := by
  rw [context, context, saturatingAdd, saturatingAdd]
  obtain hempty | hle : min (line + radius) maxLine < max (line - radius) 1 ∨
      max (line - radius) 1 ≤ min (line + radius) maxLine := Nat.lt_or_ge _ _
  · rw [Nat.sub_eq_zero_of_le hempty]
    exact List.nil_infix
  · obtain ⟨before, hbefore⟩ : ∃ before,
        max (line - radius) 1 = max (line - radius') 1 + before :=
      Nat.exists_eq_add_of_le (by omega)
    obtain ⟨after, hafter⟩ : ∃ after, min (line + radius') maxLine + 1 - max (line - radius') 1 =
        before + (min (line + radius) maxLine + 1 - max (line - radius) 1) + after :=
      Nat.exists_eq_add_of_le (by omega)
    have hfirst : 1 ≤ max (line - radius') 1 := le_max_right _ _
    rw [hafter, linesFrom_add hfirst, linesFrom_add hfirst, ← hbefore]
    exact ⟨_, _, rfl⟩

/-- The line itself is around a line if it exists. -/
theorem exists_mem_context_iff (hsize : s.size ≤ maxLine) :
    (∃ entry ∈ s.context line radius, entry.number = line) ↔ 1 ≤ line ∧ line ≤ s.size := by
  rw [← isSome_line?_iff, Option.isSome_iff_exists]
  constructor
  · rintro ⟨entry, hentry, rfl⟩
    exact ⟨entry.text, ((mem_context_iff hsize).mp hentry).2⟩
  · rintro ⟨text, htext⟩
    have hnear : |(line : ℤ) - line| ≤ radius := by
      rw [sub_self, abs_zero]
      exact Int.natCast_nonneg _
    exact ⟨⟨line, text⟩, (mem_context_iff hsize).mpr ⟨hnear, htext⟩, rfl⟩

/-- A session that is asked to list lines shows those around its current one. -/
theorem execute_list {session : Session} {text : String} (hsuspended : session.resumption = none)
    (hsource : session.source = some s) (hline : session.line = some line)
    (hparse : Command.parse text = .ok (.list radius)) :
    (session.execute text).1 = .ok (.listing (some line) (s.context line radius)) := by
  have hcurrent : session.line? = .ok (some line) := by
    rw [Session.line?, Session.whileSuspended_of_suspended hsuspended, hline]
  have hcontext : session.sourceContext? radius = .ok (s.context line radius) := by
    rw [Session.sourceContext?, Session.whileSuspended_of_suspended hsuspended,
      Session.currentContext, hsource, hline]
  rw [Session.execute_of_suspended hsuspended, hparse]
  show (session.perform (.list radius)).1 = _
  rw [Session.perform, hcurrent, hcontext]
  rfl

/-- **The lines around a line are exactly those that are near enough**, in a text whose lines can be
numbered.  They are in ascending order and without a gap, and a greater radius only adds lines at
the two ends.  So a session that is asked to list the lines around its current one shows that line
exactly if it exists. -/
theorem context_exact (s : SourceText) (hsize : s.size < 2 ^ 32) :
    (∀ line radius,
      (∀ n text, ⟨n, text⟩ ∈ s.context line radius ↔
        (1 ≤ n ∧ n ≤ s.size) ∧ |(n : ℤ) - line| ≤ radius ∧ s.line? n = some text) ∧
      ∃ first length, (s.context line radius).map (·.number) = List.range' first length) ∧
    (∀ line radius radius', radius ≤ radius' →
      s.context line radius <:+: s.context line radius') ∧
    ∀ (session : Session) (text : String) (line radius : Nat),
      session.resumption = none → session.source = some s → session.line = some line →
      Command.parse text = .ok (.list radius) →
        (session.execute text).1 = .ok (.listing (some line) (s.context line radius)) ∧
        ((∃ entry ∈ s.context line radius, entry.number = line) ↔ 1 ≤ line ∧ line ≤ s.size) := by
  have hsize' : s.size ≤ maxLine := Nat.le_of_lt_succ hsize
  refine ⟨fun line radius => ⟨fun n text => ?_, map_number_context s line radius⟩,
    fun line radius radius' => context_infix s line, ?_⟩
  · rw [mem_context_iff hsize', and_left_comm]
    -- A line that has a text exists.
    refine and_congr_right fun hnear => ⟨fun htext => ⟨?_, htext⟩, And.right⟩
    exact isSome_line?_iff.mp (Option.isSome_of_eq_some htext)
  · intro session text line radius hsuspended hsource hline hparse
    exact ⟨execute_list hsuspended hsource hline hparse, exists_mem_context_iff hsize'⟩

/-- The greatest radius around line zero takes in the last of three lines.  Behind the end, where
that line is just too far away, the current line is not shown. -/
theorem context_exact_far :
    let s : SourceText := ⟨#["one", "two", "three"]⟩
    let session : Session :=
      { machine := {}, position := 4, line := some 10, reason := .step, source := some s,
        map := .ofLists [(4, 10)] [10] }
    ⟨3, "three"⟩ ∈ s.context 0 maxLine ∧ ⟨3, "three"⟩ ∉ s.context 10 6 ∧
      s.context 10 6 <:+: s.context 10 7 ∧
      (session.execute "ls 7").1 = .ok (.listing (some 10) (s.context 10 7)) ∧
      ¬ ∃ entry ∈ s.context 10 7, entry.number = 10 := by
  intro s session
  obtain ⟨hwindow, hgrows, hlist⟩ := context_exact s (by decide)
  obtain ⟨hreply, hshown⟩ := hlist session "ls 7" 10 7 rfl rfl rfl (by decide)
  refine ⟨?_, ?_, hgrows 10 6 7 (by decide), hreply, fun h => absurd (hshown.mp h) (by decide)⟩
  · exact ((hwindow 0 maxLine).1 3 "three").mpr ⟨by decide, by decide, rfl⟩
  · exact fun h => absurd (((hwindow 10 6).1 3 "three").mp h).2.1 (by decide)

end SourceText

end BytecodeDebugger
