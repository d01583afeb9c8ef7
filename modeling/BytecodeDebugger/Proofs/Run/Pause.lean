import BytecodeDebugger.Debugger
import BytecodeDebugger.Proofs.Run.Gather

/-!
# Where a run pauses

Whether a run pauses before an instruction depends on all that went before: on the way in which the
pause before the last instruction was ended, and on every edit of the breakpoints so far.  Both are
read off the calls of the handler (`Interpreter.SteppedTo`, `Interpreter.editsBefore`), and the run
carries both along: the first as a flag (`Interpreter.stepping_iff_steppedTo`), the second as its
line map (`Interpreter.map_eq_applyEdits`).

`Debugger.pause_iff` says exactly when a run of a debugger pauses, and what the session of the pause
says about it.  `Debugger.run_calls` says of a run that ends that its handler is called in these
pauses and nowhere else.
-/

namespace BytecodeDebugger

namespace Interpreter

variable {ω σ : Type} [BreakpointOracle ω] {i : Interpreter} {handler : Handler σ} {r : Run ω σ}

/-- The pause before the preceding instruction was ended for one instruction only. -/
def SteppedTo (i : Interpreter) (handler : Handler σ) (r : Run ω σ) (k : Nat) : Prop :=
  ∃ j c, k = j + 1 ∧ i.callAt? handler r j = some c ∧ c.release? = some .step

/-- The edits of the breakpoints that succeeded in the pauses before the first `k` instructions, in
order. -/
def editsBefore (i : Interpreter) (handler : Handler σ) (r : Run ω σ) (k : Nat) :
    List BreakpointEdit :=
  (List.range k).flatMap fun j => ((i.callAt? handler r j).map HandlerCall.edits).getD []

/-- The calls of the handler before the first `n` instructions of a run, in order. -/
def calls (i : Interpreter) (handler : Handler σ) (r : Run ω σ) (n : Nat) :
    List (HandlerCall σ) :=
  i.gather handler r (fun rk => (i.nextCall? handler rk).toList) n

theorem editsBefore_succ (i : Interpreter) (handler : Handler σ) (r : Run ω σ) (k : Nat) :
    i.editsBefore handler r (k + 1) = i.editsBefore handler r k ++
      ((i.callAt? handler r k).map HandlerCall.edits).getD [] := by
  rw [editsBefore, List.range_succ, List.flatMap_append, List.flatMap_singleton]
  rfl

theorem steppedTo_succ_iff {k : Nat} : i.SteppedTo handler r (k + 1) ↔
    (i.callAt? handler r k).bind HandlerCall.release? = some .step := by
  rw [Option.bind_eq_some_iff]
  constructor
  · rintro ⟨j, c, hj, hc, hstep⟩
    obtain rfl := Nat.succ.inj hj
    exact ⟨c, hc, hstep⟩
  · rintro ⟨c, hc, hstep⟩
    exact ⟨k, c, rfl, hc, hstep⟩

/-! ### What the run carries along -/

/-- The flag of a run says how the last pause was ended. -/
theorem stepping_iff_steppedTo (hr : r.stepping = false) {k : Nat} {rk : Run ω σ}
    (hk : i.stateAt? handler r k = some rk) :
    rk.stepping = true ↔ i.SteppedTo handler r k := by
  cases k with
  | zero =>
    obtain ⟨-, rfl⟩ := stateAt?_zero_eq_some_iff.mp hk
    have hstart : r.enter.stepping = false := hr
    rw [hstart]
    simp [SteppedTo]
  | succ k =>
    -- The last pause set the flag, and the instruction after it did not touch it.
    obtain ⟨rj, hj, hstep⟩ := stateAt?_succ_eq_some_iff.mp hk
    obtain ⟨hgo, -, hrk⟩ := step_eq_none_iff.mp hstep
    have hflag : rk.stepping = (i.afterPause handler rj).stepping := by rw [hrk]; rfl
    rw [hflag, afterPause_stepping hgo, decide_eq_true_iff, steppedTo_succ_iff,
      callAt?_of_stateAt? hj]

/-! The same for the line map of the usual oracle, whose counts no edit depends on. -/

section LineBreakpoints

variable {r : Run LineBreakpoints σ}

theorem beginPause_map (reason : PauseReason) (hit : Hit) (r : Run LineBreakpoints σ) :
    (beginPause reason hit r).oracle.map = r.oracle.map := by
  unfold beginPause
  split <;> rfl

/-- A run pauses if it is stepping, and else at the lines with a breakpoint. -/
theorem nextCall?_isSome_iff : (i.nextCall? handler r).isSome ↔
    r.stepping = true ∨
      ∃ line ∈ r.oracle.map.breakpointSet,
        r.oracle.map.line? r.frame.machine.position = some line := by
  rw [nextCall?, Option.isSome_map]
  change (pauseReason r.stepping
    (BreakpointOracle.check r.oracle r.frame.machine.position)).isSome ↔ _
  cases hs : r.stepping with
  | true => simp [pauseReason]
  | false =>
    change (if r.oracle.map.isBreakpoint r.frame.machine.position then some PauseReason.breakpoint
      else none).isSome ↔ _
    rw [LineMap.isBreakpoint]
    cases hl : r.oracle.map.line? r.frame.machine.position with
    | none => simp
    | some line => simp [LineMap.mem_breakpointSet]

/-- The session of a pause has the line map of the run. -/
theorem nextCall?_map {c : HandlerCall σ} (h : i.nextCall? handler r = some c) :
    c.session.map = r.oracle.map := by
  obtain ⟨reason, -, rfl⟩ := nextCall?_eq_some_iff.mp h
  exact beginPause_map reason _ _

/-- The reason of a pause is the step if the run is stepping, even on a line with a breakpoint. -/
theorem nextCall?_reason {c : HandlerCall σ} (h : i.nextCall? handler r = some c) :
    c.session.reason = if r.stepping = true then .step else .breakpoint := by
  obtain ⟨reason, hreason, rfl⟩ := nextCall?_eq_some_iff.mp h
  change pauseReason r.stepping _ = some reason at hreason
  change reason = _
  rw [pauseReason] at hreason
  split_ifs at hreason ⊢
  · exact (Option.some.inj hreason).symm
  · exact (Option.some.inj hreason).symm

theorem nextCall?_position {c : HandlerCall σ} (h : i.nextCall? handler r = some c) :
    c.session.position = r.frame.machine.position ∧
      c.session.line = r.oracle.map.line? r.frame.machine.position := by
  obtain ⟨reason, -, rfl⟩ := nextCall?_eq_some_iff.mp h
  exact ⟨rfl, rfl⟩

theorem afterPause_map (i : Interpreter) (handler : Handler σ) (r : Run LineBreakpoints σ) :
    (i.afterPause handler r).oracle.map = r.oracle.map.applyEdits
      (((i.nextCall? handler r).map HandlerCall.edits).getD []) := by
  cases h : i.nextCall? handler r with
  | none => rw [afterPause, pause_of_no_call h]; rfl
  | some c =>
    obtain ⟨reason, hr, -⟩ := nextCall?_eq_some_iff.mp h
    rw [afterPause, pause_of_call h hr, closeSession_oracle, Option.map_some, Option.getD_some,
      ← nextCall?_map h]
    exact c.closed_map

/-- The line map of a run has gone through all edits so far. -/
theorem map_eq_applyEdits {k : Nat} {rk : Run LineBreakpoints σ}
    (hk : i.stateAt? handler r k = some rk) :
    rk.oracle.map = r.oracle.map.applyEdits (i.editsBefore handler r k) := by
  refine stateAt?_induction (P := fun k rk =>
    rk.oracle.map = r.oracle.map.applyEdits (i.editsBefore handler r k)) hk rfl ?_
  intro j rj rj' hj hmap hstep
  have hpause : rj'.oracle.map = (i.afterPause handler rj).oracle.map := by
    rw [(step_eq_none_iff.mp hstep).2.2]
    rfl
  rw [hpause, afterPause_map, hmap, editsBefore_succ, LineMap.applyEdits_append,
    callAt?_of_stateAt? hj]

/-- A run that does not step, and has no breakpoints, never pauses. -/
theorem callAt?_eq_none_of_no_breakpoints (hstepping : r.stepping = false)
    (hlines : r.oracle.map.breakpointSet = ∅) (k : Nat) : i.callAt? handler r k = none := by
  have hnone {rj : Run LineBreakpoints σ} (hrj : rj.stepping = false ∧ rj.oracle = r.oracle) :
      i.nextCall? handler rj = none := by
    rw [← Option.not_isSome_iff_eq_none, nextCall?_isSome_iff, hrj.1, hrj.2, hlines]
    simp
  cases hk : i.stateAt? handler r k with
  | none => rw [callAt?, hk, Option.bind_none]
  | some rk =>
    rw [callAt?_of_stateAt? hk]
    refine hnone (stateAt?_induction
      (P := fun _ rk => rk.stepping = false ∧ rk.oracle = r.oracle) hk ⟨hstepping, rfl⟩ ?_)
    intro j rj rj' _ hrj hstep
    obtain ⟨-, -, hrj'⟩ := step_eq_none_iff.mp hstep
    rw [hrj', afterPause, pause_of_no_call (hnone hrj)]
    exact hrj

end LineBreakpoints

end Interpreter

/-- The handler that asks for one instruction at a time.  Its state is the number of pauses. -/
def Handler.stepAlways : Handler Nat where
  onPause pauses := Dialogue.resume .step (pauses + 1)

namespace Debugger

open Interpreter

variable {σ : Type}

/-- The start of a run of a debugger. -/
def start (d : Debugger) (frame : Frame) (state : σ) (journal : Journal) : Run LineBreakpoints σ :=
  { frame, oracle := d.breakpoints, handler := state, journal }

/-- A debugger runs a call from its start, and keeps the breakpoints that the run leaves. -/
theorem run_eq (d : Debugger) (handler : Handler σ) (steps : Nat) (frame : Frame) (state : σ)
    (journal : Journal) :
    d.run handler steps state frame journal =
      (d.interpreter.run handler steps (d.start frame state journal)).map fun x =>
        { ending := x.1
          frame := x.2.frame
          handler := x.2.handler
          debugger := { d with breakpoints := x.2.oracle }
          journal := x.2.journal } := by
  unfold run start
  cases d.interpreter.run handler steps
    { frame, oracle := d.breakpoints, handler := state, journal } <;> rfl

/-- The run pauses before an instruction if it has stepped there, or if its line has a breakpoint by
then. -/
theorem callAt?_isSome_iff (d : Debugger) {handler : Handler σ} {frame : Frame} {state : σ}
    {journal : Journal} {k : Nat} {rk : Run LineBreakpoints σ}
    (hk : d.interpreter.stateAt? handler (d.start frame state journal) k = some rk) :
    let r := d.start frame state journal
    (d.interpreter.callAt? handler r k).isSome ↔ d.interpreter.SteppedTo handler r k ∨
      ∃ line ∈ (d.interpreter.editsBefore handler r k).foldl BreakpointEdit.applyTo
          d.map.breakpointSet, d.line? rk.frame.machine.position = some line := by
  intro r
  have hmap := map_eq_applyEdits hk
  rw [callAt?_of_stateAt? hk, nextCall?_isSome_iff, stepping_iff_steppedTo rfl hk, hmap,
    LineMap.breakpointSet_applyEdits, LineMap.line?_applyEdits]
  rfl

/-- **Where a run pauses.**  Before an instruction the handler is called if the pause before the
preceding instruction was ended with a step, or if the position comes from a line that has a
breakpoint after all edits made so far, and not otherwise.  It is called once, and the session says
where the run is, and whether it stepped there. -/
theorem pause_iff (d : Debugger) (handler : Handler σ) (frame : Frame) (state : σ)
    (journal : Journal) {k : Nat} {rk : Run LineBreakpoints σ}
    (hk : d.interpreter.stateAt? handler (d.start frame state journal) k = some rk) :
    let r := d.start frame state journal
    let call := d.interpreter.callAt? handler r k
    let stepped := d.interpreter.SteppedTo handler r k
    let position := rk.frame.machine.position
    let lines :=
      (d.interpreter.editsBefore handler r k).foldl BreakpointEdit.applyTo d.map.breakpointSet
    (call.isSome ↔ stepped ∨ ∃ line ∈ lines, d.line? position = some line) ∧
    (∀ c, call = some c →
      c.session.position = position ∧ c.session.line = d.line? position ∧
      (stepped → c.session.reason = .step) ∧ (¬ stepped → c.session.reason = .breakpoint) ∧
      c.session.map.breakpointSet = lines ∧
      c.dialogue = handler.onPause rk.handler ∧
      (d.interpreter.step handler rk).2.handler = c.state) ∧
    (call = none → (d.interpreter.step handler rk).2.handler = rk.handler) := by
  intro r call stepped position lines
  -- What the run has now, in terms of what happened to it.
  have hcall : call = d.interpreter.nextCall? handler rk := callAt?_of_stateAt? hk
  have hstepped : rk.stepping = true ↔ stepped := stepping_iff_steppedTo rfl hk
  have hmap := map_eq_applyEdits hk
  have hlines : rk.oracle.map.breakpointSet = lines := by
    rw [hmap, LineMap.breakpointSet_applyEdits]
    rfl
  have hline : rk.oracle.map.line? position = d.line? position := by
    rw [hmap, LineMap.line?_applyEdits]
    rfl
  refine ⟨d.callAt?_isSome_iff hk, ?_, ?_⟩
  · intro c hc
    rw [hcall] at hc
    obtain ⟨hposition, hsessionLine⟩ := nextCall?_position hc
    have hreason := nextCall?_reason hc
    refine ⟨hposition, hsessionLine.trans hline, ?_, ?_, ?_, nextCall?_dialogue hc, ?_⟩
    · intro h
      rw [hreason, if_pos (hstepped.mpr h)]
    · intro h
      have hs : ¬ rk.stepping = true := mt hstepped.mp h
      rw [hreason, if_neg hs]
    · rw [nextCall?_map hc, hlines]
    · rw [step_handler, afterPause_handler, hc]
      rfl
  · intro hnone
    rw [step_handler, afterPause_handler, ← hcall, hnone]
    rfl

/-- Stepping on from the addition, the run pauses before the last instruction, whose line has no
breakpoint. -/
theorem pause_iff_sum :
    let d := ofLineMap sumMap
    let r := d.start sumFrame 0 {}
    ∃ rk c, d.interpreter.stateAt? Handler.stepAlways r 3 = some rk ∧
      d.interpreter.callAt? Handler.stepAlways r 3 = some c ∧
      c.session.position = 5 ∧ c.session.line = some 12 ∧ c.session.reason = .step := by
  intro d r
  have hstepped : d.interpreter.SteppedTo Handler.stepAlways r 3 :=
    steppedTo_succ_iff.mpr (by decide +kernel)
  have hposition : (d.interpreter.stateAt? Handler.stepAlways r 3).map
      (fun rk => rk.frame.machine.position) = some 5 := by decide +kernel
  obtain ⟨rk, hk, h5⟩ := Option.map_eq_some_iff.mp hposition
  obtain ⟨hiff, hsession, -⟩ := pause_iff d Handler.stepAlways sumFrame 0 {} hk
  obtain ⟨c, hc⟩ := Option.isSome_iff_exists.mp (hiff.mpr (Or.inl hstepped))
  obtain ⟨hp, hline, hreason, -⟩ := hsession c hc
  rw [h5] at hp hline
  exact ⟨rk, c, hk, hc, hp, hline.trans (by decide +kernel), hreason hstepped⟩

/-- **The calls of a run that ends** are those in the pauses before its instructions.  There are at
most as many as the run may make steps; the handler's state goes through them one after another, and
the run leaves the state that it has then, and the breakpoints that are left of all edits. -/
theorem run_calls (d : Debugger) (handler : Handler σ) (frame : Frame) (state : σ)
    (journal : Journal) {n : Nat} {result : RunResult σ}
    (h : d.run handler n state frame journal = some result) :
    let r := d.start frame state journal
    let calls := d.interpreter.calls handler r n
    (∀ k f, d.interpreter.fetchedAt? handler r k = some f → k < n ∧
      ((d.interpreter.callAt? handler r k).isSome ↔ d.interpreter.SteppedTo handler r k ∨
        ∃ line ∈ (d.interpreter.editsBefore handler r k).foldl BreakpointEdit.applyTo
            d.map.breakpointSet, d.line? f.position = some line)) ∧
    result.handler = calls.foldl (fun _ c => c.state) state ∧
    result.debugger.map = d.map.applyEdits (calls.flatMap HandlerCall.edits) := by
  intro r calls
  rw [run_eq] at h
  obtain ⟨⟨ending, r'⟩, hrun, rfl⟩ := Option.map_eq_some_iff.mp h
  refine ⟨fun k f hf => ?_, ?_⟩
  · obtain ⟨rk, hk, rfl⟩ := Option.map_eq_some_iff.mp hf
    obtain ⟨last, hlast, rl, rl', hl, hend, -⟩ :=
      (run_eq_some_iff (precompile?_of_stateAt? hk)).mp hrun
    exact ⟨(le_of_end hk hl hend).trans_lt hlast, d.callAt?_isSome_iff hk⟩
  · have hpauses := pause_induction d.interpreter handler r
      (fun rk => (d.interpreter.nextCall? handler rk).toList)
      (P := fun calls carried => carried.2.1 = calls.foldl (fun _ c => c.state) state ∧
        carried.1.map = d.map.applyEdits (calls.flatMap HandlerCall.edits)) ⟨rfl, rfl⟩ ?_
    · exact hpauses.2 n ending r' hrun
    · intro k rk calls hk hcalls
      obtain ⟨hstate, hmap⟩ := hcalls
      change rk.handler = _ at hstate
      change rk.oracle.map = _ at hmap
      change (d.interpreter.afterPause handler rk).handler = _ ∧
        (d.interpreter.afterPause handler rk).oracle.map = _
      rw [afterPause_handler, afterPause_map, hstate, hmap, List.foldl_append,
        List.flatMap_append, LineMap.applyEdits_append]
      cases d.interpreter.nextCall? handler rk with
      | none => exact ⟨rfl, rfl⟩
      | some c => exact ⟨rfl, by simp⟩

end Debugger

end BytecodeDebugger
