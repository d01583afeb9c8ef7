import BytecodeDebugger.Proofs.Session.Release

/-!
# What a pause adds to the journal

During a pause the session makes entries in the journal, and so does the handler.  An entry of the
session says that the breakpoints were edited or that the pause was ended, and can be read off the
exchange that it comes from (`Exchange.event?`, `Session.journal_answer`).

The entries of a dialogue are all that it adds to the journal (`Dialogue.journal_run`).  Leave out
those of the handler, and there are the edits, in order, and then the end of the pause, after which
there is nothing (`Dialogue.sessionEvents_eq`).
-/

namespace BytecodeDebugger

namespace Journal

/-- Records events, one after another. -/
def addAll (j : Journal) (events : List Event) : Journal :=
  events.foldl add j

theorem addAll_append (j : Journal) (events events' : List Event) :
    j.addAll (events ++ events') = (j.addAll events).addAll events' :=
  List.foldl_append

end Journal

/-- How an event says that the breakpoints were edited, if it does. -/
def Event.edit? : Event → Option BreakpointEdit
  | breakpointAdded line _ => some (.add line)
  | breakpointRemoved line _ => some (.remove line)
  | _ => none

/-! ### One exchange -/

/-- What a session records of a reply that it gives at a position. -/
def Reply.event? (position : Nat) : Reply → Option Event
  | breakpointSet n added _ => some (.breakpointAdded n added)
  | breakpointDeleted n existed => some (.breakpointRemoved n existed)
  | resumed resume => some (.released resume position)
  | _ => none

namespace Exchange

/-- What a session records of an exchange at a position. -/
def event? (position : Nat) : Exchange → Option Event
  | ⟨.addBreakpoint line, .ok isNew⟩ => some (.breakpointAdded line isNew)
  | ⟨.removeBreakpoint line, .ok existed⟩ => some (.breakpointRemoved line existed)
  | ⟨.release resume, .ok ()⟩ => some (.released resume position)
  | ⟨.perform _, answer⟩ => answer.toOption.bind (Reply.event? position)
  | ⟨.execute _, answer⟩ => answer.toOption.bind (Reply.event? position)
  | _ => none

/-- An exchange that ends the pause is recorded as its end, and no other one is: an edit of the
breakpoints is recorded as what it is, and nothing else is recorded. -/
theorem event?_spec (x : Exchange) (position : Nat) : match x.release? with
    | some resume => x.event? position = some (.released resume position) ∧ x.edit? = none
    | none => (x.event? position).toList.map Event.edit? = x.edit?.toList.map some := by
  obtain ⟨request, answer⟩ := x
  cases request with
  | perform _ | execute _ =>
    rcases answer with error | reply
    · rfl
    · cases reply with
      | resumed resume => exact ⟨rfl, rfl⟩
      | _ => rfl
  | release resume =>
    rcases answer with error | ⟨⟩
    · rfl
    · exact ⟨rfl, rfl⟩
  | addBreakpoint line | removeBreakpoint line => cases answer <;> rfl
  | _ => rfl

theorem event?_of_release {x : Exchange} {resume : Resume} (h : x.release? = some resume)
    (position : Nat) : x.event? position = some (.released resume position) ∧ x.edit? = none := by
  have hspec := x.event?_spec position
  rw [h] at hspec
  exact hspec

theorem event?_of_not_release {x : Exchange} (h : x.release? = none) (position : Nat) :
    (x.event? position).toList.map Event.edit? = x.edit?.toList.map some := by
  have hspec := x.event?_spec position
  rw [h] at hspec
  exact hspec

end Exchange

namespace Session

variable {s : Session}

/-- Nothing is recorded of an exchange when the pause is over. -/
theorem event?_of_released {resume : Resume} (h : s.resumption = some resume) (request : Request)
    (position : Nat) : (s.exchange request).event? position = none := by
  cases request with
  | execute text => rw [exchange, answer, execute_of_released h]; rfl
  | perform command => rw [exchange, answer, perform_of_released h]; rfl
  | addBreakpoint line => rw [exchange, answer, addBreakpoint_of_released h]; rfl
  | removeBreakpoint line => rw [exchange, answer, removeBreakpoint_of_released h]; rfl
  | release resume' => rw [exchange, answer, release_of_released h]; rfl
  | _ => rfl

theorem journal_perform (h : s.resumption = none) (command : Command) :
    (s.perform command).2.journal = s.journal.addAll
      (Exchange.event? s.position ⟨.perform command, (s.perform command).1⟩).toList := by
  cases command with
  | «continue» | step => rw [perform, release_of_suspended h]; rfl
  | setBreakpoint line => rw [perform, addBreakpoint_of_suspended h]; rfl
  | deleteBreakpoint line => rw [perform, removeBreakpoint_of_suspended h]; rfl
  | memory offset length =>
    rw [perform]
    cases s.memory? offset length <;> rfl
  | _ =>
    simp only [perform, stack?, position?, line?, sourceLine?, sourceContext?, breakpoints?,
      whileSuspended_of_suspended h]
    rfl

/-- **An answer tells what the session has recorded.** -/
theorem journal_answer (s : Session) (request : Request) :
    (s.answer request).2.journal =
      s.journal.addAll ((s.exchange request).event? s.position).toList := by
  obtain hs | ⟨resume, hs⟩ := Option.eq_none_or_eq_some s.resumption
  · cases request with
    | perform command => exact journal_perform hs command
    | execute text =>
      rw [exchange, answer, execute_of_suspended hs]
      cases Command.parse text with
      | ok command => exact journal_perform hs command
      | error error => rfl
    | addBreakpoint line => rw [exchange, answer, addBreakpoint_of_suspended hs]; rfl
    | removeBreakpoint line => rw [exchange, answer, removeBreakpoint_of_suspended hs]; rfl
    | release resume => rw [exchange, answer, release_of_suspended hs]; rfl
    | _ => rfl
  · rw [answer_of_released hs, event?_of_released hs]
    rfl

end Session

/-! ### A whole dialogue -/

/-- An entry in the journal, and who made it. -/
inductive Entry where
  | run (event : Event)
  | session (event : Event)
  | handler (event : Event)
deriving DecidableEq, Repr

namespace Entry

/-- What the entry says. -/
def event : Entry → Event
  | run event | session event | handler event => event

/-- What the entry says, if the session of a pause made it. -/
def session? : Entry → Option Event
  | session event => some event
  | _ => none

/-- Whether the run made the entry, and not one of those who take part in a pause. -/
def isRun : Entry → Bool
  | run _ => true
  | _ => false

end Entry

namespace Dialogue

variable {α : Type} {s : Session}

/-- The entries that are made in the journal during a dialogue, in order. -/
def entries : Dialogue α → Session → List Entry
  | done _, _ => []
  | ask request next, s => ((s.exchange request).event? s.position).toList.map .session ++
    (next (s.answer request).1).entries (s.answer request).2
  | note event next, s => .handler event :: next.entries (s.record event)

/-- **A dialogue adds its entries to the journal**, and nothing else. -/
theorem journal_run (d : Dialogue α) (s : Session) :
    (d.run s).2.journal = s.journal.addAll ((d.entries s).map Entry.event) := by
  induction d generalizing s with
  | done value => rfl
  | ask request next ih =>
    have hown :
        (((s.exchange request).event? s.position).toList.map Entry.session).map Entry.event =
          ((s.exchange request).event? s.position).toList := by
      cases (s.exchange request).event? s.position <;> rfl
    rw [entries, List.map_append, hown, Journal.addAll_append, ← s.journal_answer]
    exact ih (s.answer request).1 (s.answer request).2
  | note event next ih => exact ih (s.record event)

theorem isRun_of_mem_entries (d : Dialogue α) (s : Session) :
    ∀ e ∈ d.entries s, e.isRun = false := by
  induction d generalizing s with
  | done value => exact fun e he => absurd he List.not_mem_nil
  | ask request next ih =>
    intro e he
    rcases List.mem_append.mp he with he | he
    · obtain ⟨event, -, rfl⟩ := List.mem_map.mp he
      rfl
    · exact ih _ _ e he
  | note event next ih =>
    intro e he
    rcases List.mem_cons.mp he with rfl | he
    · rfl
    · exact ih _ e he

/-- What the session records during a dialogue, in order. -/
def sessionEvents (d : Dialogue α) (s : Session) : List Event :=
  (d.entries s).filterMap Entry.session?

theorem sessionEvents_ask (request : Request) (next : request.Answer → Dialogue α) (s : Session) :
    (ask request next).sessionEvents s = ((s.exchange request).event? s.position).toList ++
      (next (s.answer request).1).sessionEvents (s.answer request).2 := by
  rw [sessionEvents, entries, List.filterMap_append]
  cases (s.exchange request).event? s.position <;> rfl

/-- When the pause is over the session records nothing any more. -/
theorem sessionEvents_of_released (d : Dialogue α) {resume : Resume}
    (h : s.resumption = some resume) : d.sessionEvents s = [] ∧ d.edits s = [] := by
  induction d generalizing s with
  | done value => exact ⟨rfl, rfl⟩
  | ask request next ih =>
    have hevent := Session.event?_of_released h request s.position
    -- Since nothing is recorded of the exchange, there is no edit in it.
    have hedit : (s.exchange request).edit? = none := by
      have hspec := (s.exchange request).event?_spec s.position
      rw [hevent] at hspec
      split at hspec
      · cases hspec.1
      · simpa using hspec
    rw [sessionEvents_ask, edits_ask, hevent, hedit]
    exact ih _ (by rw [Session.answer_of_released h, h])
  | note event next ih => exact ih h

/-- **What the session records of a pause**: the edits of the breakpoints that succeeded, in order,
and then the end of the pause, if it was ended. -/
theorem sessionEvents_eq (d : Dialogue α) (h : s.resumption = none) :
    ∃ edits, d.sessionEvents s =
        edits ++ (d.release? s).toList.map (Event.released · s.position) ∧
      edits.map Event.edit? = (d.edits s).map some := by
  induction d generalizing s with
  | done value => exact ⟨[], rfl, rfl⟩
  | ask request next ih =>
    have hadvanced := s.advanced_answer request
    have hresumption : (s.answer request).2.resumption = (s.exchange request).release? := by
      rw [hadvanced.resumption_eq, h, Option.none_or]
    rw [sessionEvents_ask, edits_ask, release?_ask]
    cases hrelease : (s.exchange request).release? with
    | some resume =>
      -- The pause was ended, and nothing is recorded any more.
      obtain ⟨hevent, hedit⟩ := Exchange.event?_of_release hrelease s.position
      obtain ⟨hrest, hedits⟩ := sessionEvents_of_released (next (s.answer request).1)
        (hresumption.trans hrelease)
      refine ⟨[], ?_, ?_⟩
      · rw [hevent, hrest]
        rfl
      · rw [hedit, hedits]
        rfl
    | none =>
      -- The pause is still on: what is recorded of the exchange is an edit or nothing.
      have hevent := Exchange.event?_of_not_release hrelease s.position
      obtain ⟨edits, hrest, hedits⟩ := ih _ (hresumption.trans hrelease)
      refine ⟨((s.exchange request).event? s.position).toList ++ edits, ?_, ?_⟩
      · rw [hrest, hadvanced.position_eq, Option.none_or, List.append_assoc]
      · rw [List.map_append, List.map_append, hevent, hedits]
  | note event next ih => exact ih h

end Dialogue

end BytecodeDebugger
