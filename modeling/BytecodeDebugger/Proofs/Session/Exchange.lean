import BytecodeDebugger.Proofs.Source.LineMap
import BytecodeDebugger.Session.Dialogue

/-!
# Exchanges

An exchange is a request together with the answer that a session gave to it.  `Exchange.release?`
and `Exchange.edit?` read off it whether it ended the pause and whether it edited the breakpoints,
from nothing but what the asking side sees.

The main statements say that this is all that happens to a session: an answer
(`Session.advanced_answer`) and a whole dialogue (`Dialogue.advanced_run`) change the line map by
the edits that succeeded, in order, and end the pause in the way of the first release that
succeeded.  Machine, position, line, reason and source text stay as they were.
-/

namespace BytecodeDebugger

/-! ### What a reply tells -/

/-- How the pause was ended, if it was. -/
def Reply.release? : Reply → Option Resume
  | resumed resume => some resume
  | _ => none

/-- How the breakpoints were edited, if they were. -/
def Reply.edit? : Reply → Option BreakpointEdit
  | breakpointSet n _ _ => some (.add n)
  | breakpointDeleted n _ => some (.remove n)
  | _ => none

/-- A request together with its answer. -/
structure Exchange where
  request : Request
  answer : request.Answer

namespace Exchange

/-- How the exchange ended the pause, if it did: a release that succeeded, by itself or as a
command. -/
def release? : Exchange → Option Resume
  | ⟨.release resume, .ok ()⟩ => some resume
  | ⟨.perform _, answer⟩ => answer.toOption.bind Reply.release?
  | ⟨.execute _, answer⟩ => answer.toOption.bind Reply.release?
  | _ => none

/-- How the exchange edited the breakpoints, if it did: an edit that succeeded, by itself or as a
command. -/
def edit? : Exchange → Option BreakpointEdit
  | ⟨.addBreakpoint line, .ok _⟩ => some (.add line)
  | ⟨.removeBreakpoint line, .ok _⟩ => some (.remove line)
  | ⟨.perform _, answer⟩ => answer.toOption.bind Reply.edit?
  | ⟨.execute _, answer⟩ => answer.toOption.bind Reply.edit?
  | _ => none

end Exchange

/-! ### One exchange -/

namespace Session

/-- The exchange that a request leads to. -/
def exchange (s : Session) (request : Request) : Exchange :=
  ⟨request, (s.answer request).1⟩

/-- A session that differs from another in nothing but what a pause is there for: its line map is
edited, it may have been ended, and the journal has grown. -/
def Advanced (s s' : Session) (edits : List BreakpointEdit) (release : Option Resume) : Prop :=
  ∃ journal, s' = { s with
    map := s.map.applyEdits edits, resumption := s.resumption.or release, journal }

variable {s s' s'' : Session}

theorem Advanced.refl (s : Session) : s.Advanced s [] none :=
  ⟨s.journal, by rw [Option.or_none]; rfl⟩

theorem Advanced.trans {edits edits' : List BreakpointEdit} {release release' : Option Resume}
    (h : s.Advanced s' edits release) (h' : s'.Advanced s'' edits' release') :
    s.Advanced s'' (edits ++ edits') (release.or release') := by
  obtain ⟨journal, rfl⟩ := h
  obtain ⟨journal', rfl⟩ := h'
  exact ⟨journal', by rw [LineMap.applyEdits_append, Option.or_assoc]⟩

theorem Advanced.machine_eq {edits : List BreakpointEdit} {release : Option Resume}
    (h : s.Advanced s' edits release) : s'.machine = s.machine := by
  obtain ⟨journal, rfl⟩ := h
  rfl

theorem Advanced.position_eq {edits : List BreakpointEdit} {release : Option Resume}
    (h : s.Advanced s' edits release) : s'.position = s.position := by
  obtain ⟨journal, rfl⟩ := h
  rfl

theorem Advanced.map_eq {edits : List BreakpointEdit} {release : Option Resume}
    (h : s.Advanced s' edits release) : s'.map = s.map.applyEdits edits := by
  obtain ⟨journal, rfl⟩ := h
  rfl

theorem Advanced.resumption_eq {edits : List BreakpointEdit} {release : Option Resume}
    (h : s.Advanced s' edits release) : s'.resumption = s.resumption.or release := by
  obtain ⟨journal, rfl⟩ := h
  rfl

theorem advanced_record (s : Session) (event : Event) : s.Advanced (s.record event) [] none :=
  ⟨s.journal.add event, by rw [Option.or_none]; rfl⟩

/-! The operations of a session, before and after the pause was ended. -/

theorem whileSuspended_of_suspended {α : Type} (h : s.resumption = none) (value : α) :
    s.whileSuspended value = .ok value := by
  simp [whileSuspended, isReleased, h]

theorem whileSuspended_of_released {α : Type} {resume : Resume} (h : s.resumption = some resume)
    (value : α) : s.whileSuspended value = .error .released := by
  simp [whileSuspended, isReleased, h]

theorem addBreakpoint_of_suspended (h : s.resumption = none) (line : Nat) :
    s.addBreakpoint line = (.ok (!s.map.hasBreakpoint line),
      { s with map := s.map.addBreakpoint line }.record
        (.breakpointAdded line (!s.map.hasBreakpoint line))) := by
  rw [addBreakpoint, whileSuspended_of_suspended h]

theorem addBreakpoint_of_released {resume : Resume} (h : s.resumption = some resume) (line : Nat) :
    s.addBreakpoint line = (.error .released, s) := by
  rw [addBreakpoint, whileSuspended_of_released h]

theorem removeBreakpoint_of_suspended (h : s.resumption = none) (line : Nat) :
    s.removeBreakpoint line = (.ok (s.map.hasBreakpoint line),
      { s with map := s.map.removeBreakpoint line }.record
        (.breakpointRemoved line (s.map.hasBreakpoint line))) := by
  rw [removeBreakpoint, whileSuspended_of_suspended h]

theorem removeBreakpoint_of_released {resume : Resume} (h : s.resumption = some resume)
    (line : Nat) : s.removeBreakpoint line = (.error .released, s) := by
  rw [removeBreakpoint, whileSuspended_of_released h]

theorem release_of_suspended (h : s.resumption = none) (resume : Resume) :
    s.release resume = (.ok (),
      { s with resumption := some resume }.record (.released resume s.position)) := by
  rw [release, whileSuspended_of_suspended h]

theorem release_of_released {resume : Resume} (h : s.resumption = some resume) (resume' : Resume) :
    s.release resume' = (.error .released, s) := by
  rw [release, whileSuspended_of_released h]

/-- After the end of a pause every command is refused. -/
theorem perform_of_released {resume : Resume} (h : s.resumption = some resume) (command : Command) :
    s.perform command = (.error .released, s) := by
  cases command <;>
    simp only [perform, release_of_released h, addBreakpoint_of_released h,
      removeBreakpoint_of_released h, stack?, memory?, position?, line?, sourceLine?,
      sourceContext?, breakpoints?, whileSuspended_of_released h] <;> rfl

/-- After the end of a pause every text is refused, a command or not. -/
theorem execute_of_released {resume : Resume} (h : s.resumption = some resume) (text : String) :
    s.execute text = (.error .released, s) := by
  rw [execute, whileSuspended_of_released h]

theorem execute_of_suspended (h : s.resumption = none) (text : String) :
    s.execute text = match Command.parse text with
      | .ok command => s.perform command
      | .error error => (.error (.malformed error), s) := by
  have hsuspended : s.whileSuspended () = .ok () := whileSuspended_of_suspended h ()
  cases hparse : Command.parse text with
  | ok command => simp only [execute, hsuspended, hparse]
  | error error => simp only [execute, hsuspended, hparse]

/-! What each of them does is told by its answer. -/

theorem advanced_edit (s : Session) (edit : BreakpointEdit) (event : Event) :
    s.Advanced ({ s with map := s.map.applyEdit edit }.record event) [edit] none :=
  ⟨s.journal.add event, by rw [Option.or_none]; rfl⟩

theorem advanced_end (h : s.resumption = none) (resume : Resume) (event : Event) :
    s.Advanced ({ s with resumption := some resume }.record event) [] (some resume) :=
  ⟨s.journal.add event, by rw [h]; rfl⟩

theorem advanced_perform (s : Session) (command : Command) :
    s.Advanced (s.perform command).2
      (Exchange.edit? ⟨.perform command, (s.perform command).1⟩).toList
      (Exchange.release? ⟨.perform command, (s.perform command).1⟩) := by
  cases hs : s.resumption with
  | some resume =>
    rw [perform_of_released hs]
    exact Advanced.refl s
  | none =>
    cases command with
    | «continue» =>
      rw [perform, release_of_suspended hs]
      exact advanced_end hs .continue _
    | step =>
      rw [perform, release_of_suspended hs]
      exact advanced_end hs .step _
    | setBreakpoint line =>
      rw [perform, addBreakpoint_of_suspended hs]
      exact s.advanced_edit (.add line) _
    | deleteBreakpoint line =>
      rw [perform, removeBreakpoint_of_suspended hs]
      exact s.advanced_edit (.remove line) _
    | memory offset length =>
      -- The one view that can be refused during a pause; either way nothing happens.
      rw [perform]
      cases s.memory? offset length <;> exact Advanced.refl s
    | _ =>
      simp only [perform, stack?, position?, line?, sourceLine?, sourceContext?, breakpoints?,
        whileSuspended_of_suspended hs]
      exact Advanced.refl s

/-- **An answer tells what happened to the session.** -/
theorem advanced_answer (s : Session) (request : Request) :
    s.Advanced (s.answer request).2 (s.exchange request).edit?.toList
      (s.exchange request).release? := by
  cases request with
  | perform command => exact s.advanced_perform command
  | execute text =>
    cases hs : s.resumption with
    | some resume =>
      rw [exchange, answer, execute_of_released hs]
      exact Advanced.refl s
    | none =>
      rw [exchange, answer, execute_of_suspended hs]
      cases Command.parse text with
      | ok command => exact s.advanced_perform command
      | error error => exact Advanced.refl s
  | addBreakpoint line =>
    cases hs : s.resumption with
    | some resume =>
      rw [exchange, answer, addBreakpoint_of_released hs]
      exact Advanced.refl s
    | none =>
      rw [exchange, answer, addBreakpoint_of_suspended hs]
      exact s.advanced_edit (.add line) _
  | removeBreakpoint line =>
    cases hs : s.resumption with
    | some resume =>
      rw [exchange, answer, removeBreakpoint_of_released hs]
      exact Advanced.refl s
    | none =>
      rw [exchange, answer, removeBreakpoint_of_suspended hs]
      exact s.advanced_edit (.remove line) _
  | release resume =>
    cases hs : s.resumption with
    | some resume' =>
      rw [exchange, answer, release_of_released hs]
      exact Advanced.refl s
    | none =>
      rw [exchange, answer, release_of_suspended hs]
      exact advanced_end hs resume _
  | _ => exact Advanced.refl s

/-- A session after requests, one after another. -/
def afterRequests (s : Session) (requests : List Request) : Session :=
  requests.foldl (fun s request => (s.answer request).2) s

/-- Whatever is asked of a session, its machine stands still. -/
theorem afterRequests_machine (s : Session) (requests : List Request) :
    (s.afterRequests requests).machine = s.machine := by
  induction requests generalizing s with
  | nil => rfl
  | cons request requests ih =>
    exact (ih (s.answer request).2).trans (s.advanced_answer request).machine_eq

end Session

/-! ### A whole dialogue -/

namespace Dialogue

variable {α β : Type}

/-- The exchanges of a dialogue with a session, in order. -/
def exchanges : Dialogue α → Session → List Exchange
  | done _, _ => []
  | ask request next, s =>
    s.exchange request :: (next (s.answer request).1).exchanges (s.answer request).2
  | note event next, s => next.exchanges (s.record event)

/-- The edits that succeeded in a dialogue, in order. -/
def edits (d : Dialogue α) (s : Session) : List BreakpointEdit :=
  (d.exchanges s).filterMap Exchange.edit?

/-- How the first release that succeeded in a dialogue ended the pause, if one did. -/
def release? (d : Dialogue α) (s : Session) : Option Resume :=
  (d.exchanges s).findSome? Exchange.release?

theorem edits_ask (request : Request) (next : request.Answer → Dialogue α) (s : Session) :
    (ask request next).edits s = (s.exchange request).edit?.toList ++
      (next (s.answer request).1).edits (s.answer request).2 := by
  rw [edits, exchanges, List.filterMap_cons]
  cases (s.exchange request).edit? <;> rfl

theorem release?_ask (request : Request) (next : request.Answer → Dialogue α) (s : Session) :
    (ask request next).release? s = (s.exchange request).release?.or
      ((next (s.answer request).1).release? (s.answer request).2) := by
  rw [release?, exchanges, List.findSome?_cons]
  cases (s.exchange request).release? <;> rfl

/-- **A dialogue does what its exchanges tell**: the line map gets the edits that succeeded, in
order, and the pause is ended in the way of the first release that succeeded. -/
theorem advanced_run (d : Dialogue α) (s : Session) :
    s.Advanced (d.run s).2 (d.edits s) (d.release? s) := by
  induction d generalizing s with
  | done value => exact Session.Advanced.refl s
  | ask request next ih =>
    rw [edits_ask, release?_ask]
    exact (s.advanced_answer request).trans (ih (s.answer request).1 (s.answer request).2)
  | note event next ih => exact (s.advanced_record event).trans (ih (s.record event))

/-- A pause is ended in the way of the first release that succeeded, whatever follows. -/
theorem run_resumption (d : Dialogue α) {s : Session} (h : s.resumption = none) :
    (d.run s).2.resumption = d.release? s := by
  rw [(d.advanced_run s).resumption_eq, h, Option.none_or]

end Dialogue

end BytecodeDebugger
