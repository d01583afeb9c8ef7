import BytecodeDebugger.Interpreter
import BytecodeDebugger.Proofs.Session.Exchange

/-!
# The history of a run

The instructions of a run are numbered from zero.  `Interpreter.stateAt?` is the run just before an
instruction is fetched, and the rest of its history is read off it: what is fetched
(`Interpreter.fetchedAt?`), the call of the handler in the pause before it, if there is one
(`Interpreter.callAt?`), and what is carried out (`Interpreter.dispatchAt?`).

`Interpreter.pause_fst` and the lemmas after it say what a pause does to a run in terms of that
call, and `Interpreter.step_eq` what an instruction does.  A run ends with its instruction number
`k` if it ends within `k + 1` steps and not within `k` (`Interpreter.run_eq_some_iff`,
`Interpreter.run_eq_none_iff`).
-/

namespace BytecodeDebugger

/-! ### Ways to end -/

/-- How a run ends because of what an instruction came to, if it does. -/
def Ending.ofResult? : Except Fault Flow → Option Ending
  | .ok .proceed => none
  | .ok .halt => some .completed
  | .error fault => some (.failed (.machine fault))

theorem Ending.ofResult?_injective : Function.Injective Ending.ofResult? := by
  intro result result' h
  rcases result with fault | _ | _ <;> rcases result' with fault' | _ | _ <;>
    simp_all [ofResult?]

theorem Ending.ofResult?_eq_none_iff {result : Except Fault Flow} :
    Ending.ofResult? result = none ↔ result = .ok .proceed := by
  cases result with
  | ok flow => cases flow <;> simp [ofResult?]
  | error fault => simp [ofResult?]

/-- An instruction that a run ends with is its end or fails. -/
theorem Ending.eq_of_ofResult? {result : Except Fault Flow} {ending : Ending}
    (h : Ending.ofResult? result = some ending) :
    ending = .completed ∨ ∃ fault, ending = .failed (.machine fault) := by
  rcases result with fault | flow
  · exact Or.inr ⟨fault, (Option.some.inj h).symm⟩
  · cases flow with
    | proceed => cases h
    | halt => exact Or.inl (Option.some.inj h).symm

/-! ### Calls of the handler -/

/-- A call of a handler: the session that it is given, and the dialogue that it holds. -/
structure HandlerCall (σ : Type) where
  session : Session
  dialogue : Dialogue (HandlerEnd × σ)

namespace HandlerCall

variable {σ : Type}

/-- How the call ended. -/
def how (c : HandlerCall σ) : HandlerEnd :=
  (c.dialogue.run c.session).1.1

/-- The state of the handler after the call. -/
def state (c : HandlerCall σ) : σ :=
  (c.dialogue.run c.session).1.2

/-- The session after the call. -/
def closed (c : HandlerCall σ) : Session :=
  (c.dialogue.run c.session).2

/-- The edits of the breakpoints that succeeded during the call, in order. -/
def edits (c : HandlerCall σ) : List BreakpointEdit :=
  c.dialogue.edits c.session

/-- How the first release that succeeded during the call ended the pause, if one did. -/
def release? (c : HandlerCall σ) : Option Resume :=
  c.dialogue.release? c.session

/-- How the run ends because of the call, if it does. -/
def ending? (c : HandlerCall σ) : Option Ending :=
  match c.how, c.release? with
  | .returned, some _ => none
  | .returned, none => some (.failed .notReleased)
  | .failed error, _ => some (.failed (.handler error))
  | .crashed, _ => some .crashed

theorem ending?_eq_none_iff (c : HandlerCall σ) :
    c.ending? = none ↔ c.how = .returned ∧ c.release?.isSome := by
  rw [ending?]
  cases c.how <;> cases c.release? <;> simp

/-- A call makes a run end only because it was left, failed or broke off. -/
theorem ending?_ne_ofResult? {c : HandlerCall σ} {ending : Ending} (h : c.ending? = some ending)
    (result : Except Fault Flow) : Ending.ofResult? result ≠ some ending := by
  intro hresult
  rw [ending?] at h
  rcases result with fault | flow
  · obtain rfl := Option.some.inj hresult
    split at h <;> simp at h
  · cases flow with
    | proceed => cases hresult
    | halt =>
      obtain rfl := Option.some.inj hresult
      split at h <;> simp at h

theorem closed_map (c : HandlerCall σ) : c.closed.map = c.session.map.applyEdits c.edits :=
  (c.dialogue.advanced_run c.session).map_eq

theorem closed_resumption {c : HandlerCall σ} (h : c.session.resumption = none) :
    c.closed.resumption = c.release? :=
  c.dialogue.run_resumption h

end HandlerCall

namespace Run

variable {ω σ : Type}

/-- The run with another machine. -/
def withMachine (r : Run ω σ) (machine : Machine) : Run ω σ :=
  { r with frame := { r.frame with machine } }

theorem enter_precompile? (r : Run ω σ) : r.enter.frame.precompile? = r.frame.precompile? :=
  rfl

/-- A run that is still running at its end is halted then if it came to its end, and has failed
otherwise. -/
theorem leave_frame_of_running {r : Run ω σ} (h : r.frame.status = .running) (ending : Ending) :
    (r.leave ending).frame =
      { r.frame with status := if ending = .completed then .halted else .failed } := by
  have hstatus : r.frame.status.atEnd ending =
      if ending = .completed then RunStatus.halted else .failed := by
    rw [h]
    cases ending <;> rfl
  rw [← hstatus]
  rfl

end Run

namespace Interpreter

variable {ω σ : Type} [BreakpointOracle ω] {i : Interpreter} {handler : Handler σ} {r r' : Run ω σ}

/-! ### The parts of a step -/

theorem stepping_of_fetch_pause (h : (i.fetch r).1.pause = none) :
    (i.fetch r).2.stepping = false := by
  change pauseReason r.stepping _ = none at h
  change r.stepping = false
  cases hs : r.stepping with
  | false => rfl
  | true => rw [hs] at h; exact absurd h (by simp [pauseReason])

/-- The call of the handler in the pause before the next instruction, if there is a pause. -/
def nextCall? (i : Interpreter) (handler : Handler σ) (r : Run ω σ) : Option (HandlerCall σ) :=
  let (f, r) := i.fetch r
  f.pause.map fun reason =>
    let r := beginPause reason f.hit r
    { session := i.openSession reason f.hit r, dialogue := handler.onPause r.handler }

/-- The run after the pause before the next instruction, or without one. -/
def afterPause (i : Interpreter) (handler : Handler σ) (r : Run ω σ) : Run ω σ :=
  (i.pause handler (i.fetch r).1 (i.fetch r).2).2

/-- The next instruction, and the run when it is carried out.  There is none if the run ends in the
pause before it. -/
def nextDispatch? (i : Interpreter) (handler : Handler σ) (r : Run ω σ) :
    Option (Fetched × Run ω σ) :=
  match i.pause handler (i.fetch r).1 (i.fetch r).2 with
  | (none, r') => some ((i.fetch r).1, r')
  | (some _, _) => none

theorem beginPause_frame (reason : PauseReason) (hit : Hit) (r : Run ω σ) :
    (beginPause reason hit r).frame = r.frame := by
  unfold beginPause
  split <;> rfl

theorem beginPause_handler (reason : PauseReason) (hit : Hit) (r : Run ω σ) :
    (beginPause reason hit r).handler = r.handler := by
  unfold beginPause
  split <;> rfl

theorem closeSession_frame (how : HandlerEnd) (state : σ) (session : Session) (r : Run ω σ) :
    (closeSession how state session r).2.frame = r.frame := by
  unfold closeSession
  split <;> rfl

theorem closeSession_handler (how : HandlerEnd) (state : σ) (session : Session) (r : Run ω σ) :
    (closeSession how state session r).2.handler = state := by
  unfold closeSession
  split <;> rfl

theorem closeSession_oracle (how : HandlerEnd) (state : σ) (session : Session) (r : Run ω σ) :
    (closeSession how state session r).2.oracle =
      BreakpointOracle.withLineMap r.oracle session.map := by
  unfold closeSession
  split <;> rfl

theorem closeSession_fst (how : HandlerEnd) (state : σ) (session : Session) (r : Run ω σ) :
    (closeSession how state session r).1 = match how, session.resumption with
      | .returned, some _ => none
      | .returned, none => some (.failed .notReleased)
      | .failed error, _ => some (.failed (.handler error))
      | .crashed, _ => some .crashed := by
  unfold closeSession
  cases how <;> cases session.resumption <;> rfl

theorem closeSession_stepping {how : HandlerEnd} {state : σ} {session : Session} {r : Run ω σ}
    (h : (closeSession how state session r).1 = none) :
    (closeSession how state session r).2.stepping = decide (session.resumption = some .step) := by
  rw [closeSession_fst] at h
  unfold closeSession
  cases how <;> cases hs : session.resumption <;> simp [hs] at h ⊢

/-! The call of the handler, and what the pause makes of it. -/

theorem nextCall?_eq_none_iff : i.nextCall? handler r = none ↔ (i.fetch r).1.pause = none :=
  Option.map_eq_none_iff

theorem nextCall?_eq_some_iff {c : HandlerCall σ} : i.nextCall? handler r = some c ↔
    ∃ reason, (i.fetch r).1.pause = some reason ∧
      c = {
        session := i.openSession reason (i.fetch r).1.hit
          (beginPause reason (i.fetch r).1.hit (i.fetch r).2)
        dialogue :=
          handler.onPause (beginPause reason (i.fetch r).1.hit (i.fetch r).2).handler } := by
  rw [nextCall?, Option.map_eq_some_iff]
  simp only [eq_comm]

theorem nextCall?_dialogue {c : HandlerCall σ} (h : i.nextCall? handler r = some c) :
    c.dialogue = handler.onPause r.handler := by
  obtain ⟨reason, -, rfl⟩ := nextCall?_eq_some_iff.mp h
  rw [beginPause_handler]
  rfl

theorem nextCall?_machine {c : HandlerCall σ} (h : i.nextCall? handler r = some c) :
    c.session.machine = (i.fetch r).2.frame.machine := by
  obtain ⟨reason, -, rfl⟩ := nextCall?_eq_some_iff.mp h
  exact congrArg Frame.machine (beginPause_frame reason (i.fetch r).1.hit (i.fetch r).2)

/-- A handler is called with a session that is still suspended. -/
theorem nextCall?_suspended {c : HandlerCall σ} (h : i.nextCall? handler r = some c) :
    c.session.resumption = none := by
  obtain ⟨reason, -, rfl⟩ := nextCall?_eq_some_iff.mp h
  rfl

theorem pause_of_call {c : HandlerCall σ} {reason : PauseReason}
    (h : i.nextCall? handler r = some c) (hr : (i.fetch r).1.pause = some reason) :
    i.pause handler (i.fetch r).1 (i.fetch r).2 = closeSession c.how c.state c.closed
      (beginPause reason (i.fetch r).1.hit (i.fetch r).2) := by
  obtain ⟨reason', hr', rfl⟩ := nextCall?_eq_some_iff.mp h
  obtain rfl := Option.some.inj (hr.symm.trans hr')
  rw [pause, hr]
  rfl

theorem pause_of_no_call (h : i.nextCall? handler r = none) :
    i.pause handler (i.fetch r).1 (i.fetch r).2 = (none, (i.fetch r).2) := by
  rw [pause, nextCall?_eq_none_iff.mp h]

/-- A run ends in a pause as the call of the handler tells. -/
theorem pause_fst (i : Interpreter) (handler : Handler σ) (r : Run ω σ) :
    (i.pause handler (i.fetch r).1 (i.fetch r).2).1 =
      (i.nextCall? handler r).bind HandlerCall.ending? := by
  cases h : i.nextCall? handler r with
  | none => rw [pause_of_no_call h, Option.bind_none]
  | some c =>
    obtain ⟨reason, hr, -⟩ := nextCall?_eq_some_iff.mp h
    rw [pause_of_call h hr, closeSession_fst, c.closed_resumption (nextCall?_suspended h)]
    rfl

/-- The machine, and all else of the frame, is the same before and after a pause. -/
theorem afterPause_frame (i : Interpreter) (handler : Handler σ) (r : Run ω σ) :
    (i.afterPause handler r).frame = (i.fetch r).2.frame := by
  cases h : i.nextCall? handler r with
  | none => rw [afterPause, pause_of_no_call h]
  | some c =>
    obtain ⟨reason, hr, -⟩ := nextCall?_eq_some_iff.mp h
    rw [afterPause, pause_of_call h hr, closeSession_frame, beginPause_frame]

/-- The handler is called once in a pause, and not at all without one. -/
theorem afterPause_handler (i : Interpreter) (handler : Handler σ) (r : Run ω σ) :
    (i.afterPause handler r).handler =
      ((i.nextCall? handler r).map HandlerCall.state).getD r.handler := by
  cases h : i.nextCall? handler r with
  | none => rw [afterPause, pause_of_no_call h]; rfl
  | some c =>
    obtain ⟨reason, hr, -⟩ := nextCall?_eq_some_iff.mp h
    rw [afterPause, pause_of_call h hr, closeSession_handler]; rfl

/-- A run that goes on after a pause is stepping if that is how the pause was ended.  A run without
a pause is not. -/
theorem afterPause_stepping (h : (i.nextCall? handler r).bind HandlerCall.ending? = none) :
    (i.afterPause handler r).stepping =
      decide ((i.nextCall? handler r).bind HandlerCall.release? = some .step) := by
  cases hc : i.nextCall? handler r with
  | none =>
    -- A run that is stepping always pauses, so that this one was not.
    rw [afterPause, pause_of_no_call hc, Option.bind_none]
    exact stepping_of_fetch_pause (nextCall?_eq_none_iff.mp hc)
  | some c =>
    obtain ⟨reason, hr, -⟩ := nextCall?_eq_some_iff.mp hc
    rw [← pause_fst, pause_of_call hc hr] at h
    rw [afterPause, pause_of_call hc hr, closeSession_stepping h,
      c.closed_resumption (nextCall?_suspended hc), Option.bind_some]

/-! ### Steps -/

theorem nextDispatch?_eq_some_iff {f : Fetched} : i.nextDispatch? handler r = some (f, r') ↔
    (i.nextCall? handler r).bind HandlerCall.ending? = none ∧ f = (i.fetch r).1 ∧
      r' = i.afterPause handler r := by
  rw [← pause_fst, nextDispatch?, afterPause]
  cases i.pause handler (i.fetch r).1 (i.fetch r).2 with
  | mk ending? r'' => cases ending? <;> simp [eq_comm]

theorem nextDispatch?_isSome_iff : (i.nextDispatch? handler r).isSome ↔
    (i.nextCall? handler r).bind HandlerCall.ending? = none := by
  rw [← pause_fst, nextDispatch?]
  cases i.pause handler (i.fetch r).1 (i.fetch r).2 with
  | mk ending? r'' => cases ending? <;> simp

omit [BreakpointOracle ω] in
/-- What an instruction comes to when it is carried out. -/
theorem dispatch_eq (f : Fetched) (r : Run ω σ) :
    dispatch f r = (Ending.ofResult? ((action f).run r.frame.machine).1,
      r.withMachine ((action f).run r.frame.machine).2) := by
  have hperform : r.perform (action f) = (((action f).run r.frame.machine).1,
      r.withMachine ((action f).run r.frame.machine).2) := rfl
  rw [dispatch, hperform]
  cases ((action f).run r.frame.machine).1 with
  | ok flow => cases flow <;> rfl
  | error fault => rfl

/-- **A step**: after the pause the run ends as the call of the handler tells, or the instruction is
carried out. -/
theorem step_eq (i : Interpreter) (handler : Handler σ) (r : Run ω σ) :
    i.step handler r = match (i.nextCall? handler r).bind HandlerCall.ending? with
      | some ending => (some ending, i.afterPause handler r)
      | none => dispatch (i.fetch r).1 (i.afterPause handler r) := by
  rw [← pause_fst, afterPause, step]
  rcases hpause : i.pause handler (i.fetch r).1 (i.fetch r).2 with ⟨_ | ending, r'⟩
  · simp only [hpause]
  · simp only [hpause]

theorem step_handler (i : Interpreter) (handler : Handler σ) (r : Run ω σ) :
    (i.step handler r).2.handler = (i.afterPause handler r).handler := by
  rw [step_eq]
  cases (i.nextCall? handler r).bind HandlerCall.ending? with
  | some ending => rfl
  | none => simp only [dispatch_eq]; rfl

/-- A step that the run goes on after has carried out its instruction. -/
theorem step_eq_none_iff : i.step handler r = (none, r') ↔
    (i.nextCall? handler r).bind HandlerCall.ending? = none ∧
      (action (i.fetch r).1).run (i.fetch r).2.frame.machine = (.ok .proceed, r'.frame.machine) ∧
      r' = (i.afterPause handler r).withMachine r'.frame.machine := by
  rw [step_eq]
  cases (i.nextCall? handler r).bind HandlerCall.ending? with
  | some ending => simp
  | none =>
    rw [dispatch_eq, afterPause_frame, Prod.mk.injEq, Ending.ofResult?_eq_none_iff, Prod.ext_iff]
    constructor
    · rintro ⟨hresult, rfl⟩
      exact ⟨rfl, ⟨hresult, rfl⟩, rfl⟩
    · rintro ⟨-, ⟨hresult, hmachine⟩, hr⟩
      exact ⟨hresult, by rw [hmachine]; exact hr.symm⟩

/-- A step that the run ends with has ended in its pause, or has carried out its instruction. -/
theorem step_eq_some_cases {ending : Ending} (h : i.step handler r = (some ending, r')) :
    ((i.nextCall? handler r).bind HandlerCall.ending? = some ending ∧
      r' = i.afterPause handler r) ∨
    ((i.nextCall? handler r).bind HandlerCall.ending? = none ∧
      Ending.ofResult? ((action (i.fetch r).1).run (i.fetch r).2.frame.machine).1 = some ending ∧
      r' = (i.afterPause handler r).withMachine
        ((action (i.fetch r).1).run (i.fetch r).2.frame.machine).2) := by
  rw [step_eq] at h
  cases hcall : (i.nextCall? handler r).bind HandlerCall.ending? with
  | some ending' =>
    rw [hcall, Prod.mk.injEq] at h
    exact Or.inl ⟨h.1, h.2.symm⟩
  | none =>
    rw [hcall] at h
    simp only [dispatch_eq, afterPause_frame, Prod.mk.injEq] at h
    exact Or.inr ⟨rfl, h.1, h.2.symm⟩

/-! ### Instructions by number -/

/-- The run just before its instruction number `k` is fetched, if it comes that far.  A call that
goes to a precompiled routine has no instructions. -/
def stateAt? (i : Interpreter) (handler : Handler σ) (r : Run ω σ) : Nat → Option (Run ω σ)
  | 0 => if r.frame.precompile?.isNone then some r.enter else none
  | k + 1 => (i.stateAt? handler r k).bind fun r =>
    match i.step handler r with
    | (none, r) => some r
    | (some _, _) => none

/-- The instruction number `k` of a run. -/
def fetchedAt? (i : Interpreter) (handler : Handler σ) (r : Run ω σ) (k : Nat) : Option Fetched :=
  (i.stateAt? handler r k).map fun r => (i.fetch r).1

/-- The call of the handler in the pause before the instruction number `k` of a run. -/
def callAt? (i : Interpreter) (handler : Handler σ) (r : Run ω σ) (k : Nat) :
    Option (HandlerCall σ) :=
  (i.stateAt? handler r k).bind (i.nextCall? handler)

/-- The instruction number `k` of a run, with the run when it is carried out. -/
def dispatchAt? (i : Interpreter) (handler : Handler σ) (r : Run ω σ) (k : Nat) :
    Option (Fetched × Run ω σ) :=
  (i.stateAt? handler r k).bind (i.nextDispatch? handler)

theorem callAt?_of_stateAt? {k : Nat} {rk : Run ω σ} (hk : i.stateAt? handler r k = some rk) :
    i.callAt? handler r k = i.nextCall? handler rk := by
  rw [callAt?, hk, Option.bind_some]

theorem stateAt?_zero_eq_some_iff : i.stateAt? handler r 0 = some r' ↔
    r.frame.precompile? = none ∧ r' = r.enter := by
  rw [stateAt?]
  cases r.frame.precompile? <;> simp [eq_comm]

theorem stateAt?_succ_eq_some_iff {k : Nat} : i.stateAt? handler r (k + 1) = some r' ↔
    ∃ rk, i.stateAt? handler r k = some rk ∧ i.step handler rk = (none, r') := by
  rw [stateAt?, Option.bind_eq_some_iff]
  refine exists_congr fun rk => and_congr_right fun _ => ?_
  cases i.step handler rk with
  | mk ending? r'' => cases ending? <;> simp

theorem precompile?_of_stateAt? {k : Nat} (hk : i.stateAt? handler r k = some r') :
    r.frame.precompile? = none := by
  induction k generalizing r' with
  | zero => exact (stateAt?_zero_eq_some_iff.mp hk).1
  | succ k ih =>
    obtain ⟨rk, hrk, -⟩ := stateAt?_succ_eq_some_iff.mp hk
    exact ih hrk

/-- **Induction along a run**: what holds at its start and is kept by every step holds before each
instruction. -/
theorem stateAt?_induction {P : Nat → Run ω σ → Prop} {k : Nat}
    (hk : i.stateAt? handler r k = some r') (start : P 0 r.enter)
    (step : ∀ j rj rj', i.stateAt? handler r j = some rj → P j rj →
      i.step handler rj = (none, rj') → P (j + 1) rj') : P k r' := by
  induction k generalizing r' with
  | zero => exact (stateAt?_zero_eq_some_iff.mp hk).2 ▸ start
  | succ k ih =>
    obtain ⟨rk, hrk, hstep⟩ := stateAt?_succ_eq_some_iff.mp hk
    exact step k rk r' hrk (ih hrk) hstep

/-- A run only ever changes the machine of its frame, until it ends. -/
theorem frame_of_stateAt? {k : Nat} {rk : Run ω σ} (hk : i.stateAt? handler r k = some rk) :
    rk.frame = { r.enter.frame with machine := rk.frame.machine } := by
  refine stateAt?_induction
    (P := fun _ rk => rk.frame = { r.enter.frame with machine := rk.frame.machine }) hk rfl ?_
  intro j rj rj' _ hframe hstep
  obtain ⟨-, -, hrj'⟩ := step_eq_none_iff.mp hstep
  calc rj'.frame
      = { (i.afterPause handler rj).frame with machine := rj'.frame.machine } :=
        congrArg Run.frame hrj'
    _ = { rj.frame with machine := rj'.frame.machine } := by rw [afterPause_frame]; rfl
    _ = { r.enter.frame with machine := rj'.frame.machine } := by rw [hframe]

/-- Before each of its instructions, and in the pause before it, a run is running. -/
theorem status_of_stateAt? {k : Nat} {rk : Run ω σ} (hk : i.stateAt? handler r k = some rk) :
    rk.frame.status = .running ∧ (i.afterPause handler rk).frame.status = .running := by
  have hstatus : rk.frame.status = .running := by
    rw [frame_of_stateAt? hk]
    rfl
  rw [afterPause_frame]
  exact ⟨hstatus, hstatus⟩

/-- A run that comes to an instruction comes to all before it. -/
theorem exists_stateAt?_of_le {j k : Nat} (hk : i.stateAt? handler r k = some r') (hjk : j ≤ k) :
    ∃ rj, i.stateAt? handler r j = some rj := by
  induction k generalizing r' with
  | zero => exact ⟨r', by rwa [Nat.le_zero.mp hjk]⟩
  | succ k ih =>
    obtain ⟨rk, hrk, -⟩ := stateAt?_succ_eq_some_iff.mp hk
    rcases Nat.le_or_eq_of_le_succ hjk with h | rfl
    · exact ih hrk h
    · exact ⟨r', hk⟩

/-! ### The end of a run -/

theorem loop_succ (i : Interpreter) (handler : Handler σ) (n : Nat) (r : Run ω σ) :
    i.loop handler (n + 1) r = match i.step handler r with
      | (none, r) => i.loop handler n r
      | (some ending, r) => some (ending, r) :=
  rfl

/-- From its instruction number `k` on, a run goes on for `n` steps or ends within them. -/
theorem loop_spec (n : Nat) {k : Nat} {rk : Run ω σ} (hk : i.stateAt? handler r k = some rk) :
    (i.loop handler n rk = none → ∃ rn, i.stateAt? handler r (k + n) = some rn) ∧
    ∀ ending r', i.loop handler n rk = some (ending, r') → ∃ j < n, ∃ rj,
      i.stateAt? handler r (k + j) = some rj ∧ i.step handler rj = (some ending, r') := by
  induction n generalizing k rk with
  | zero =>
    refine ⟨fun _ => ⟨rk, hk⟩, fun ending r' h => ?_⟩
    cases h
  | succ n ih =>
    rw [loop_succ]
    cases hstep : i.step handler rk with
    | mk ending? r₁ =>
      cases ending? with
      | some ending =>
        constructor
        · intro h
          cases h
        · intro ending' r' h
          obtain ⟨rfl, rfl⟩ := Prod.mk.inj (Option.some.inj h)
          exact ⟨0, n.succ_pos, rk, hk, hstep⟩
      | none =>
        -- From the next instruction on there are `n` steps left.
        have hk₁ : i.stateAt? handler r (k + 1) = some r₁ :=
          stateAt?_succ_eq_some_iff.mpr ⟨rk, hk, hstep⟩
        obtain ⟨hnone, hsome⟩ := ih hk₁
        refine ⟨fun h => ?_, fun ending r' h => ?_⟩
        · rw [show k + (n + 1) = k + 1 + n by omega]
          exact hnone h
        · obtain ⟨j, hj, rj, hrj, hend⟩ := hsome ending r' h
          exact ⟨j + 1, by omega, rj, by rwa [show k + (j + 1) = k + 1 + j by omega], hend⟩

/-- An instruction that the run ends with is the last one. -/
theorem stateAt?_eq_none_of_end {k j : Nat} {rk : Run ω σ} {ending : Ending}
    (hk : i.stateAt? handler r k = some rk) (hend : i.step handler rk = (some ending, r'))
    (hkj : k < j) : i.stateAt? handler r j = none := by
  rw [Option.eq_none_iff_forall_ne_some]
  intro rj hj
  obtain ⟨rk', hk'⟩ := exists_stateAt?_of_le hj hkj
  obtain ⟨rk'', hrk'', hstep⟩ := stateAt?_succ_eq_some_iff.mp hk'
  obtain rfl := Option.some.inj (hk.symm.trans hrk'')
  rw [hend] at hstep
  cases hstep

/-- A run comes to no instruction after the one that it ends with. -/
theorem le_of_end {k last : Nat} {rk rl : Run ω σ} {ending : Ending}
    (hk : i.stateAt? handler r k = some rk) (hl : i.stateAt? handler r last = some rl)
    (hend : i.step handler rl = (some ending, r')) : k ≤ last := by
  by_contra hlt
  rw [stateAt?_eq_none_of_end hl hend (Nat.lt_of_not_le hlt)] at hk
  cases hk

/-- A run ends once. -/
theorem end_unique {j k : Nat} {rj rk rj' rk' : Run ω σ} {ending ending' : Ending}
    (hj : i.stateAt? handler r j = some rj) (hj' : i.step handler rj = (some ending, rj'))
    (hk : i.stateAt? handler r k = some rk) (hk' : i.step handler rk = (some ending', rk')) :
    j = k ∧ ending = ending' ∧ rj' = rk' := by
  obtain rfl : j = k := Nat.le_antisymm (le_of_end hj hk hk') (le_of_end hk hj hj')
  obtain rfl := Option.some.inj (hj.symm.trans hk)
  rw [hj', Prod.mk.injEq, Option.some.injEq] at hk'
  exact ⟨rfl, hk'⟩

theorem run_eq_loop (n : Nat) (h : r.frame.precompile? = none) :
    i.run handler n r = (i.loop handler n r.enter).map fun x => (x.1, x.2.leave x.1) := by
  unfold run
  simp only [Run.enter_precompile?, h]
  cases i.loop handler n r.enter with
  | none => rfl
  | some x => rfl

/-- A call that goes to a precompiled routine ends as the routine does. -/
theorem run_eq_precompile (n : Nat) {routine : Precompile}
    (h : r.frame.precompile? = some routine) :
    i.run handler n r = some ((runPrecompile routine r.enter).1,
      (runPrecompile routine r.enter).2.leave (runPrecompile routine r.enter).1) := by
  unfold run
  simp only [Run.enter_precompile?, h]
  rfl

omit [BreakpointOracle ω] in
theorem runPrecompile_snd (routine : Precompile) (r : Run ω σ) :
    (runPrecompile routine r).2 =
      { r.record (.precompile r.frame.address) with frame := (r.frame.call routine).2 } := by
  have hcall : (r.record (.precompile r.frame.address)).call routine = ((r.frame.call routine).1,
      { r.record (.precompile r.frame.address) with frame := (r.frame.call routine).2 }) := rfl
  rw [runPrecompile, hcall]
  cases (r.frame.call routine).1 <;> rfl

/-- The run of a routine leaves the call as the routine does, but for how far it has come. -/
theorem frame_of_precompile {n : Nat} {ending : Ending} {routine : Precompile}
    (hroutine : r.frame.precompile? = some routine)
    (h : i.run handler n r = some (ending, r')) :
    r'.frame = { (r.enter.frame.call routine).2 with
      status := (r.enter.frame.call routine).2.status.atEnd ending } := by
  rw [run_eq_precompile n hroutine, runPrecompile_snd] at h
  obtain ⟨rfl, rfl⟩ := Prod.mk.inj (Option.some.inj h)
  rfl

omit [BreakpointOracle ω] in
theorem runPrecompile_fst (routine : Precompile) (r : Run ω σ) :
    (runPrecompile routine r).1 = .completed ∨
      ∃ fault, (runPrecompile routine r).1 = .failed (.machine fault) := by
  unfold runPrecompile
  split
  · exact Or.inl rfl
  · exact Or.inr ⟨_, rfl⟩

/-- A run ends within `n` steps if it ends with one of its first `n` instructions. -/
theorem run_eq_some_iff {n : Nat} {ending : Ending} (h : r.frame.precompile? = none) :
    i.run handler n r = some (ending, r') ↔ ∃ k < n, ∃ rk rk', i.stateAt? handler r k = some rk ∧
      i.step handler rk = (some ending, rk') ∧ r' = rk'.leave ending := by
  have hstart : i.stateAt? handler r 0 = some r.enter :=
    stateAt?_zero_eq_some_iff.mpr ⟨h, rfl⟩
  obtain ⟨hnone, hsome⟩ := loop_spec n hstart
  simp only [Nat.zero_add] at hnone hsome
  rw [run_eq_loop n h, Option.map_eq_some_iff]
  constructor
  · rintro ⟨⟨ending', rk'⟩, hloop, heq⟩
    obtain ⟨rfl, rfl⟩ := Prod.mk.inj heq
    obtain ⟨k, hkn, rk, hk, hend⟩ := hsome _ _ hloop
    exact ⟨k, hkn, rk, rk', hk, hend, rfl⟩
  · rintro ⟨k, hkn, rk, rk', hk, hend, rfl⟩
    cases hloop : i.loop handler n r.enter with
    | none =>
      -- The loop would have come past the last instruction.
      obtain ⟨rn, hn⟩ := hnone hloop
      rw [stateAt?_eq_none_of_end hk hend hkn] at hn
      cases hn
    | some x =>
      obtain ⟨j, -, rj, hj, hend'⟩ := hsome _ _ hloop
      obtain ⟨-, rfl, rfl⟩ := end_unique hk hend hj hend'
      exact ⟨x, rfl, rfl⟩

/-- A run is not over after `n` steps if it comes to its instruction number `n`. -/
theorem run_eq_none_iff {n : Nat} (h : r.frame.precompile? = none) :
    i.run handler n r = none ↔ ∃ rn, i.stateAt? handler r n = some rn := by
  have hstart : i.stateAt? handler r 0 = some r.enter :=
    stateAt?_zero_eq_some_iff.mpr ⟨h, rfl⟩
  obtain ⟨hnone, hsome⟩ := loop_spec n hstart
  simp only [Nat.zero_add] at hnone hsome
  rw [run_eq_loop n h, Option.map_eq_none_iff]
  refine ⟨hnone, ?_⟩
  rintro ⟨rn, hn⟩
  rw [Option.eq_none_iff_forall_ne_some]
  intro x hloop
  obtain ⟨k, hkn, rk, hk, hend⟩ := hsome _ _ hloop
  rw [stateAt?_eq_none_of_end hk hend hkn] at hn
  cases hn

end Interpreter

/-! ### A small run

Two numbers are pushed and added, and there is a breakpoint on the line of the addition.  The run of
this call stands for the others where a statement is applied to one. -/

/-- The call. -/
def sumFrame : Frame :=
  { machine := { code := { bytes := ⟨#[0x60, 1, 0x60, 2, 0x01, 0x00]⟩ } } }

/-- The lines of its instructions. -/
def sumMap : LineMap :=
  LineMap.ofLists [(0, 10), (2, 10), (4, 11), (5, 12)] [11]

/-- The start of its run, with the number of pauses as the state of the handler. -/
def sumRun : Run LineBreakpoints Nat :=
  { frame := sumFrame, oracle := { map := sumMap }, handler := 0 }

/-! ### A routine that renews the call

It puts the call of no code in place of the one that it is given, and stands for all that a routine
may do beside its work on the machine. -/

/-- The routine, which succeeds or fails. -/
def Precompile.renew (result : Except Fault Unit) : Precompile where
  run _ _ := (result, {}, [.clear, .insert (Address.ofNat 4) .identity])

/-- The call, which has code, call data and one byte in its memory. -/
def renewFrame (result : Except Fault Unit) : Frame where
  machine := {
    code := { bytes := ⟨#[0x00]⟩ }
    memory := (Memory.write {} 0 ⟨#[5]⟩).2
    callData := ⟨#[7]⟩ }
  address := Address.ofNat 1
  precompiles := PrecompileTable.insert {} (Address.ofNat 1) (.renew result)

/-- The start of its run. -/
def renewRun (result : Except Fault Unit) : Run LineBreakpoints Nat :=
  { frame := renewFrame result, oracle := {}, handler := 0 }

end BytecodeDebugger
