import BytecodeDebugger.Proofs.Session.Exchange

/-!
# Sessions that differ in their journals

A session never reads its journal.  Two sessions that differ in nothing else give the same answers,
and still differ in nothing else afterwards (`Session.Alike.execute` and the lemmas before it).
-/

namespace BytecodeDebugger

/-- Two sessions that differ in nothing but their journals. -/
def Session.Alike (s s' : Session) : Prop :=
  ∃ journal, s' = { s with journal }

namespace Session.Alike

variable {s s' s'' : Session}

theorem refl (s : Session) : s.Alike s :=
  ⟨s.journal, rfl⟩

theorem symm (h : s.Alike s') : s'.Alike s := by
  obtain ⟨journal, rfl⟩ := h
  exact ⟨s.journal, rfl⟩

theorem trans (h : s.Alike s') (h' : s'.Alike s'') : s.Alike s'' := by
  obtain ⟨journal, rfl⟩ := h
  obtain ⟨journal', rfl⟩ := h'
  exact ⟨journal', rfl⟩

theorem record (s : Session) (event : Event) : s.Alike (s.record event) :=
  ⟨s.journal.add event, rfl⟩

theorem map_eq (h : s.Alike s') : s'.map = s.map := by
  obtain ⟨journal, rfl⟩ := h
  rfl

theorem resumption_eq (h : s.Alike s') : s'.resumption = s.resumption := by
  obtain ⟨journal, rfl⟩ := h
  rfl

/-- What is refused when the pause is over keeps sessions alike if it does during the pause. -/
theorem of_suspended {α : Type} {f : Session → α × Session} {refusal : α} (h : s.Alike s')
    (hreleased : ∀ {s : Session} {resume : Resume}, s.resumption = some resume →
      f s = (refusal, s))
    (hsuspended : s.resumption = none → s'.resumption = none →
      (f s).1 = (f s').1 ∧ (f s).2.Alike (f s').2) :
    (f s).1 = (f s').1 ∧ (f s).2.Alike (f s').2 := by
  obtain hs | ⟨resume, hs⟩ := Option.eq_none_or_eq_some s.resumption
  · exact hsuspended hs (h.resumption_eq.trans hs)
  · rw [hreleased hs, hreleased (h.resumption_eq.trans hs)]
    exact ⟨rfl, h⟩

theorem addBreakpoint (h : s.Alike s') (line : Nat) :
    (s.addBreakpoint line).1 = (s'.addBreakpoint line).1 ∧
      (s.addBreakpoint line).2.Alike (s'.addBreakpoint line).2 := by
  refine h.of_suspended (fun hs => addBreakpoint_of_released hs line) fun hs hs' => ?_
  rw [addBreakpoint_of_suspended hs, addBreakpoint_of_suspended hs']
  obtain ⟨journal, rfl⟩ := h
  exact ⟨rfl, _, rfl⟩

theorem removeBreakpoint (h : s.Alike s') (line : Nat) :
    (s.removeBreakpoint line).1 = (s'.removeBreakpoint line).1 ∧
      (s.removeBreakpoint line).2.Alike (s'.removeBreakpoint line).2 := by
  refine h.of_suspended (fun hs => removeBreakpoint_of_released hs line) fun hs hs' => ?_
  rw [removeBreakpoint_of_suspended hs, removeBreakpoint_of_suspended hs']
  obtain ⟨journal, rfl⟩ := h
  exact ⟨rfl, _, rfl⟩

theorem release (h : s.Alike s') (resume : Resume) :
    (s.release resume).1 = (s'.release resume).1 ∧
      (s.release resume).2.Alike (s'.release resume).2 := by
  refine h.of_suspended (fun hs => release_of_released hs resume) fun hs hs' => ?_
  rw [release_of_suspended hs, release_of_suspended hs']
  obtain ⟨journal, rfl⟩ := h
  exact ⟨rfl, _, rfl⟩

theorem perform (h : s.Alike s') (command : Command) :
    (s.perform command).1 = (s'.perform command).1 ∧
      (s.perform command).2.Alike (s'.perform command).2 := by
  cases command with
  | «continue» | step =>
    obtain ⟨hresult, hsession⟩ := h.release _
    exact ⟨congrArg (Except.map _) hresult, hsession⟩
  | setBreakpoint line =>
    obtain ⟨hresult, hsession⟩ := h.addBreakpoint line
    refine ⟨?_, hsession⟩
    -- The reply also tells whether the line is reachable, which it reads off the edited line map.
    change (s.addBreakpoint line).1.map (fun added => Reply.breakpointSet line added
      ((s.addBreakpoint line).2.map.isReachable line)) = _
    rw [hresult, ← hsession.map_eq]
    rfl
  | deleteBreakpoint line =>
    obtain ⟨hresult, hsession⟩ := h.removeBreakpoint line
    exact ⟨congrArg (Except.map _) hresult, hsession⟩
  | _ =>
    refine ⟨?_, h⟩
    obtain ⟨journal, rfl⟩ := h
    rfl

theorem execute (h : s.Alike s') (text : String) :
    (s.execute text).1 = (s'.execute text).1 ∧ (s.execute text).2.Alike (s'.execute text).2 := by
  refine h.of_suspended (fun hs => execute_of_released hs text) fun hs hs' => ?_
  rw [execute_of_suspended hs, execute_of_suspended hs']
  cases Command.parse text with
  | ok command => exact h.perform command
  | error error => exact ⟨rfl, h⟩

end Session.Alike

end BytecodeDebugger
