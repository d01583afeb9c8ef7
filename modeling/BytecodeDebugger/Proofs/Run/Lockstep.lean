import BytecodeDebugger.Debugger
import BytecodeDebugger.Proofs.Run.Pause
import BytecodeDebugger.Proofs.Session.Alike

/-!
# Runs in lockstep

Two handlers agree along a relation between their states if, from related states, they leave a pause
in the same way: their calls end alike, the sessions are edited and ended alike, and the states are
related again (`Handler.Agree`).  What they ask for and record in between is up to each of them.

Then their runs stay together.  Before each instruction they stand at the same point, or neither
comes so far (`Interpreter.stateAt?_alike`), and they end alike after as many steps
(`Interpreter.run_alike`, `Debugger.run_alike`).
-/

/-! ### Options that are related -/

namespace Option.Rel

variable {α β α' β' : Type} {P : α → β → Prop} {Q : α' → β' → Prop} {x : Option α} {y : Option β}

theorem bind {f : α → Option α'} {g : β → Option β'} (h : Option.Rel P x y)
    (hfg : ∀ a b, P a b → Option.Rel Q (f a) (g b)) : Option.Rel Q (x.bind f) (y.bind g) := by
  cases h with
  | none => exact .none
  | some hab => exact hfg _ _ hab

theorem map {f : α → α'} {g : β → β'} (h : Option.Rel P x y)
    (hfg : ∀ a b, P a b → Q (f a) (g b)) : Option.Rel Q (x.map f) (y.map g) := by
  cases h with
  | none => exact .none
  | some hab => exact .some (hfg _ _ hab)

theorem imp {P' : α → β → Prop} (h : Option.Rel P x y) (hP : ∀ a b, P a b → P' a b) :
    Option.Rel P' x y := by
  cases h with
  | none => exact .none
  | some hab => exact .some (hP _ _ hab)

theorem exists_left {b : β} (h : Option.Rel P x y) (hy : y = Option.some b) :
    ∃ a, x = Option.some a ∧ P a b := by
  obtain rfl := hy
  cases h with
  | some hab => exact ⟨_, rfl, hab⟩

end Option.Rel

namespace BytecodeDebugger

/-! ### The same point -/

variable {ω σ τ : Type} {R : σ → τ → Prop}

/-- Two calls of handlers that came to the same: they ended in the same way, with related states and
sessions that are alike. -/
structure SameOutcome (R : σ → τ → Prop) (x : (HandlerEnd × σ) × Session)
    (x' : (HandlerEnd × τ) × Session) : Prop where
  how : x.1.1 = x'.1.1
  state : R x.1.2 x'.1.2
  session : x.2.Alike x'.2

/-- Calls that are over once the pause is come to the same if they do while it lasts. -/
theorem SameOutcome.unlessReleased {s s' : Session} {state : σ} {state' : τ}
    {x : (HandlerEnd × σ) × Session} {x' : (HandlerEnd × τ) × Session} (hs : s.Alike s')
    (hstate : R state state') (hx : s.resumption = none → SameOutcome R x x') :
    SameOutcome R (if s.isReleased then ((.returned, state), s) else x)
      (if s'.isReleased then ((.returned, state'), s') else x') := by
  rw [Session.isReleased, Session.isReleased, hs.resumption_eq]
  cases h : s.resumption with
  | none => exact hx h
  | some resume => exact ⟨rfl, hstate, hs⟩

/-- Two handlers that do the same at a pause, as far as the run is concerned. -/
def Handler.Agree (R : σ → τ → Prop) (handler : Handler σ) (handler' : Handler τ) : Prop :=
  ∀ state state' s s', R state state' → s.Alike s' → s.resumption = none →
    SameOutcome R ((handler.onPause state).run s) ((handler'.onPause state').run s')

/-- Two runs that stand at the same point: they differ in nothing but their journals and the states
of their handlers, which are related. -/
structure Run.Alike (R : σ → τ → Prop) (r : Run ω σ) (r' : Run ω τ) : Prop where
  frame : r.frame = r'.frame
  oracle : r.oracle = r'.oracle
  stepping : r.stepping = r'.stepping
  handler : R r.handler r'.handler

/-- Two results of runs that differ in nothing but their journals and the states of their handlers,
which are related. -/
structure RunResult.Alike (R : σ → τ → Prop) (x : RunResult σ) (x' : RunResult τ) : Prop where
  ending : x.ending = x'.ending
  frame : x.frame = x'.frame
  /-- The debuggers after them, with their breakpoints and the number of pauses at each line. -/
  debugger : x.debugger = x'.debugger
  handler : R x.handler x'.handler

namespace Run.Alike

variable {r : Run ω σ} {r' : Run ω τ}

theorem record (h : r.Alike R r') (event event' : Event) :
    (r.record event).Alike R (r'.record event') :=
  ⟨h.frame, h.oracle, h.stepping, h.handler⟩

theorem withMachine (h : r.Alike R r') (machine : Machine) :
    (r.withMachine machine).Alike R (r'.withMachine machine) :=
  ⟨congrArg (fun frame => { frame with machine }) h.frame, h.oracle, h.stepping, h.handler⟩

theorem setStatus (h : r.Alike R r') (status : RunStatus) :
    (r.setStatus status).Alike R (r'.setStatus status) :=
  ⟨congrArg (fun frame => { frame with status }) h.frame, h.oracle, h.stepping, h.handler⟩

theorem perform {α : Type} (h : r.Alike R r') (action : Action α) :
    ∃ result rk rk', r.perform action = (result, rk) ∧ r'.perform action = (result, rk') ∧
      rk.Alike R rk' := by
  obtain ⟨frame, oracle, state, stepping, journal⟩ := r
  obtain ⟨frame', oracle', state', stepping', journal'⟩ := r'
  obtain ⟨rfl, rfl, rfl, hstate⟩ := h
  exact ⟨_, _, _, rfl, rfl, rfl, rfl, rfl, hstate⟩

theorem call (h : r.Alike R r') (routine : Precompile) :
    ∃ result rk rk', r.call routine = (result, rk) ∧ r'.call routine = (result, rk') ∧
      rk.Alike R rk' := by
  obtain ⟨frame, oracle, state, stepping, journal⟩ := r
  obtain ⟨frame', oracle', state', stepping', journal'⟩ := r'
  obtain ⟨rfl, rfl, rfl, hstate⟩ := h
  exact ⟨_, _, _, rfl, rfl, rfl, rfl, rfl, hstate⟩

theorem enter (h : r.Alike R r') : r.enter.Alike R r'.enter := by
  obtain ⟨result, rk, rk', hperform, hperform', halike⟩ :=
    (h.record (.started r.frame.address r.frame.machine.position)
      (.started r'.frame.address r'.frame.machine.position)).perform
      (Action.setReturnData ByteArray.empty)
  rw [Run.enter, Run.enter, hperform, hperform']
  exact halike.setStatus .running

theorem leave (h : r.Alike R r') (ending : Ending) :
    (r.leave ending).Alike R (r'.leave ending) := by
  have hstatus : r.frame.status = r'.frame.status := congrArg Frame.status h.frame
  rw [Run.leave, Run.leave, hstatus]
  exact (h.setStatus _).record _ _

end Run.Alike

namespace Interpreter

variable [BreakpointOracle ω] {i : Interpreter} {handler : Handler σ} {handler' : Handler τ}
  {r : Run ω σ} {r' : Run ω τ}

/-! ### The parts of a step -/

theorem fetch_alike (i : Interpreter) (h : r.Alike R r') :
    (i.fetch r).1 = (i.fetch r').1 ∧ (i.fetch r).2.Alike R (i.fetch r').2 := by
  obtain ⟨frame, oracle, state, stepping, journal⟩ := r
  obtain ⟨frame', oracle', state', stepping', journal'⟩ := r'
  obtain ⟨rfl, rfl, rfl, hstate⟩ := h
  exact ⟨rfl, rfl, rfl, rfl, hstate⟩

theorem beginPause_alike (reason : PauseReason) (hit : Hit) (h : r.Alike R r') :
    (beginPause reason hit r).Alike R (beginPause reason hit r') := by
  obtain ⟨frame, oracle, state, stepping, journal⟩ := r
  obtain ⟨frame', oracle', state', stepping', journal'⟩ := r'
  obtain ⟨rfl, rfl, rfl, hstate⟩ := h
  obtain ⟨position, _ | line, _ | _⟩ := hit <;> exact ⟨rfl, rfl, rfl, hstate⟩

theorem openSession_alike (i : Interpreter) (reason : PauseReason) (hit : Hit)
    (h : r.Alike R r') : (i.openSession reason hit r).Alike (i.openSession reason hit r') := by
  obtain ⟨frame, oracle, state, stepping, journal⟩ := r
  obtain ⟨frame', oracle', state', stepping', journal'⟩ := r'
  obtain ⟨rfl, rfl, rfl, -⟩ := h
  exact ⟨journal', rfl⟩

theorem closeSession_alike {x : (HandlerEnd × σ) × Session} {x' : (HandlerEnd × τ) × Session}
    (hx : SameOutcome R x x') (h : r.Alike R r') :
    (closeSession x.1.1 x.1.2 x.2 r).1 = (closeSession x'.1.1 x'.1.2 x'.2 r').1 ∧
      (closeSession x.1.1 x.1.2 x.2 r).2.Alike R (closeSession x'.1.1 x'.1.2 x'.2 r').2 := by
  obtain ⟨frame, oracle, handler, stepping, journal⟩ := r
  obtain ⟨frame', oracle', handler', stepping', journal'⟩ := r'
  obtain ⟨rfl, rfl, rfl, -⟩ := h
  obtain ⟨⟨how, state⟩, s⟩ := x
  obtain ⟨⟨how', state'⟩, s'⟩ := x'
  obtain ⟨rfl, hstate, journal'', rfl⟩ := hx
  obtain ⟨machine, position, line, reason, map, source, _ | resume, journal⟩ := s <;>
    cases how <;> exact ⟨rfl, rfl, rfl, rfl, hstate⟩

/-- A pause of handlers that agree leaves runs at the same point. -/
theorem pause_alike (i : Interpreter) (hagree : Handler.Agree R handler handler') (f : Fetched)
    (h : r.Alike R r') :
    (i.pause handler f r).1 = (i.pause handler' f r').1 ∧
      (i.pause handler f r).2.Alike R (i.pause handler' f r').2 := by
  rw [pause, pause]
  cases f.pause with
  | none => exact ⟨rfl, h⟩
  | some reason =>
    have hbegun := beginPause_alike reason f.hit h
    have hopened := openSession_alike i reason f.hit hbegun
    exact closeSession_alike (hagree _ _ _ _ hbegun.handler hopened rfl) hbegun

/-! ### Steps and runs -/

/-- A step takes runs at the same point to the same point, or to the same end. -/
theorem step_alike (i : Interpreter) (hagree : Handler.Agree R handler handler')
    (h : r.Alike R r') :
    ∃ ending? rk rk', i.step handler r = (ending?, rk) ∧ i.step handler' r' = (ending?, rk') ∧
      rk.Alike R rk' := by
  obtain ⟨hfetched, hfetch⟩ := fetch_alike i h
  obtain ⟨hending, hpause⟩ := pause_alike i hagree (i.fetch r).1 hfetch
  rw [step_eq, step_eq, ← pause_fst, ← pause_fst, afterPause, afterPause, ← hfetched, ← hending]
  cases (i.pause handler (i.fetch r).1 (i.fetch r).2).1 with
  | some ending => exact ⟨some ending, _, _, rfl, rfl, hpause⟩
  | none =>
    simp only [dispatch_eq, hpause.frame]
    exact ⟨_, _, _, rfl, rfl, hpause.withMachine _⟩

/-- **Lockstep.**  Before each instruction runs of handlers that agree stand at the same point, or
neither of them comes to it. -/
theorem stateAt?_alike (i : Interpreter) (hagree : Handler.Agree R handler handler')
    (h : r.Alike R r') (k : Nat) :
    Option.Rel (Run.Alike R) (i.stateAt? handler r k) (i.stateAt? handler' r' k) := by
  induction k with
  | zero =>
    rw [stateAt?, stateAt?, h.frame]
    split
    · exact .some h.enter
    · exact .none
  | succ k ih =>
    rw [stateAt?, stateAt?]
    refine ih.bind fun rk rk' hk => ?_
    obtain ⟨ending?, rj, rj', hstep, hstep', halike⟩ := step_alike i hagree hk
    rw [hstep, hstep']
    cases ending? with
    | none => exact .some halike
    | some ending => exact .none

theorem loop_alike (i : Interpreter) (hagree : Handler.Agree R handler handler')
    (h : r.Alike R r') (n : Nat) :
    Option.Rel (fun x x' => x.1 = x'.1 ∧ x.2.Alike R x'.2) (i.loop handler n r)
      (i.loop handler' n r') := by
  induction n generalizing r r' with
  | zero => exact .none
  | succ n ih =>
    obtain ⟨ending?, rk, rk', hstep, hstep', halike⟩ := step_alike i hagree h
    simp only [loop_succ, hstep, hstep']
    cases ending? with
    | none => exact ih halike
    | some ending => exact .some ⟨rfl, halike⟩

omit [BreakpointOracle ω] in
theorem runPrecompile_alike (routine : Precompile) (h : r.Alike R r') :
    ∃ ending rk rk', runPrecompile routine r = (ending, rk) ∧
      runPrecompile routine r' = (ending, rk') ∧ rk.Alike R rk' := by
  obtain ⟨result, rk, rk', hcall, hcall', halike⟩ :=
    (h.record (.precompile r.frame.address) (.precompile r'.frame.address)).call routine
  rw [runPrecompile, runPrecompile, hcall, hcall']
  cases result with
  | ok value => exact ⟨_, _, _, rfl, rfl, halike⟩
  | error fault => exact ⟨_, _, _, rfl, rfl, halike⟩

/-- **Lockstep to the end.**  Runs of handlers that agree end in the same way after as many steps,
if they end. -/
theorem run_alike (i : Interpreter) (hagree : Handler.Agree R handler handler')
    (h : r.Alike R r') (n : Nat) :
    Option.Rel (fun x x' => x.1 = x'.1 ∧ x.2.Alike R x'.2) (i.run handler n r)
      (i.run handler' n r') := by
  cases hp : r.frame.precompile? with
  | some routine =>
    obtain ⟨ending, rk, rk', hrun, hrun', halike⟩ := runPrecompile_alike routine h.enter
    rw [run_eq_precompile n hp, run_eq_precompile n (h.frame ▸ hp), hrun, hrun']
    exact .some ⟨rfl, halike.leave ending⟩
  | none =>
    rw [run_eq_loop n hp, run_eq_loop n (h.frame ▸ hp)]
    refine (loop_alike i hagree h.enter n).map fun x x' hx => ?_
    rw [← hx.1]
    exact ⟨rfl, hx.2.leave x.1⟩

/-! ### Calls of the handlers -/

/-- Calls of two handlers in the same pause, from states that are related. -/
structure SamePause (R : σ → τ → Prop) (handler : Handler σ) (handler' : Handler τ)
    (c : HandlerCall σ) (c' : HandlerCall τ) : Prop where
  session : c.session.Alike c'.session
  suspended : c.session.resumption = none
  dialogue : ∃ state state', R state state' ∧ c.dialogue = handler.onPause state ∧
    c'.dialogue = handler'.onPause state'

theorem nextCall?_alike (i : Interpreter) (handler : Handler σ) (handler' : Handler τ)
    (h : r.Alike R r') :
    Option.Rel (SamePause R handler handler') (i.nextCall? handler r)
      (i.nextCall? handler' r') := by
  obtain ⟨hfetched, hfetch⟩ := fetch_alike i h
  simp only [nextCall?, ← hfetched]
  cases (i.fetch r).1.pause with
  | none => exact .none
  | some reason =>
    have hbegun := beginPause_alike reason (i.fetch r).1.hit hfetch
    exact .some ⟨openSession_alike i reason _ hbegun, rfl, _, _, hbegun.handler, rfl, rfl⟩

/-- Runs of handlers that agree pause before the same instructions, with sessions that are alike. -/
theorem callAt?_alike (i : Interpreter) (hagree : Handler.Agree R handler handler')
    (h : r.Alike R r') (k : Nat) :
    Option.Rel (SamePause R handler handler') (i.callAt? handler r k)
      (i.callAt? handler' r' k) := by
  rw [callAt?, callAt?]
  exact (stateAt?_alike i hagree h k).bind fun _ _ hk => nextCall?_alike i handler handler' hk

end Interpreter

/-! ### Runs of a debugger -/

namespace Debugger

variable {handler : Handler σ} {handler' : Handler τ} {state : σ} {state' : τ}

theorem start_alike (d : Debugger) (hstate : R state state') (frame : Frame) (journal : Journal) :
    (d.start frame state journal).Alike R (d.start frame state' journal) :=
  ⟨rfl, rfl, rfl, hstate⟩

/-- **Lockstep of a debugger.**  With handlers that agree it runs a call through the same points to
the same end, if it comes to an end. -/
theorem run_alike (d : Debugger) (hagree : Handler.Agree R handler handler')
    (hstate : R state state') (frame : Frame) (journal : Journal) :
    (∀ k, Option.Rel (Run.Alike R)
      (d.interpreter.stateAt? handler (d.start frame state journal) k)
      (d.interpreter.stateAt? handler' (d.start frame state' journal) k)) ∧
    ∀ n, Option.Rel (RunResult.Alike R) (d.run handler n state frame journal)
      (d.run handler' n state' frame journal) := by
  have hstart := d.start_alike hstate frame journal
  refine ⟨d.interpreter.stateAt?_alike hagree hstart, fun n => ?_⟩
  rw [run_eq, run_eq]
  refine (d.interpreter.run_alike hagree hstart n).map fun x x' hx => ?_
  obtain ⟨hending, halike⟩ := hx
  exact ⟨hending, halike.frame, congrArg (fun breakpoints => { d with breakpoints })
    halike.oracle, halike.handler⟩

end Debugger

end BytecodeDebugger
