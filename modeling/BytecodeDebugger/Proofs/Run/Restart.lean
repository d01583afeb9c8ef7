import BytecodeDebugger.Proofs.Handler.Release
import BytecodeDebugger.Proofs.Instruction.Cursor
import BytecodeDebugger.Proofs.Run.Plain

/-!
# Runs that are started again

A handler that does not end a pause ends the run, before the instruction that was fetched is carried
out.  What the run leaves behind is what it had before the fetch, but for the cursor, which is
behind the opcode (`Interpreter.machine_of_abort`).

A run whose handler ends every pause comes to what the plain loop comes to
(`Interpreter.run_eq_plainLoop`), and the plain loop may be started anywhere on its way.  So a run
that was cut off is completed by another one from the instruction that it paused at
(`Debugger.restart_of_abort`).  For that the cursor has to be put back: from where it is left, the
instruction is passed over (`Debugger.not_restart_in_place`).
-/

namespace BytecodeDebugger

/-! ### The bytes to be handed back -/

/-- Nothing is handed back by an instruction that the run goes on after. -/
theorem Instruction.returnData_of_proceed {x : Instruction} {m m' : Machine}
    (h : x.execute.run m = (.ok .proceed, m')) : m'.returnData = m.returnData := by
  cases hx : x.handsBack with
  | false => exact (keeps_returnData hx).eq h
  | true =>
    cases x with
    | ret =>
      obtain ⟨data, m₁, -, hhalt⟩ := Action.run_bind_eq_ok_iff.mp h
      cases hhalt
    | revert =>
      obtain ⟨data, m₁, -, hthrow⟩ := Action.run_bind_eq_ok_iff.mp h
      cases hthrow
    | _ => cases hx

namespace OpcodeTable

variable {instruction? : UInt8 → Option Instruction} {m m' : Machine}

theorem plainStep_returnData (h : (assign instruction?).plainStep m = (.ok .proceed, m')) :
    m'.returnData = m.returnData := by
  rw [plainStep, behaviour_assign] at h
  cases hx : instruction? m.fetch.1 with
  | some x =>
    rw [hx] at h
    have hdata : m'.returnData = m.fetch.2.returnData := Instruction.returnData_of_proceed h
    exact hdata
  | none =>
    rw [hx] at h
    cases h

theorem plainAt?_returnData {k : Nat} {mk : Machine}
    (hk : (assign instruction?).plainAt? m k = some mk) : mk.returnData = m.returnData := by
  induction k generalizing mk with
  | zero => obtain rfl := Option.some.inj hk; rfl
  | succ k ih =>
    obtain ⟨mj, hj, hstep⟩ := plainAt?_succ_eq_some_iff.mp hk
    exact (plainStep_returnData hstep).trans (ih hj)

end OpcodeTable

/-! ### Runs that nobody cuts off -/

/-- How a run ends that comes to what the plain loop comes to. -/
def Ending.ofPlain : Except Fault Unit → Ending
  | .ok () => .completed
  | .error fault => .failed (.machine fault)

namespace Interpreter

variable {ω σ : Type} [BreakpointOracle ω] {i : Interpreter} {handler : Handler σ} {r r' : Run ω σ}
  {P : σ → Prop} {bound : Nat}

/-- **A run whose handler ends every pause is the plain loop.** -/
theorem run_eq_plainLoop (h : handler.Releases P bound) (hr : P r.handler)
    (hp : r.frame.precompile? = none) (n : Nat) :
    ((i.run handler n r).map fun x => (x.1, x.2.frame.machine)) =
      (i.opcodes.plainLoop n r.enter.frame.machine).map fun x => (Ending.ofPlain x.1, x.2) := by
  cases hrun : i.run handler n r with
  | none =>
    obtain ⟨rn, hn⟩ := (run_eq_none_iff hp).mp hrun
    have hloop : i.opcodes.plainLoop n r.enter.frame.machine = none :=
      OpcodeTable.plainLoop_add (plainAt?_of_stateAt? hn) 0
    rw [hloop]
    rfl
  | some x =>
    obtain ⟨ending, r'⟩ := x
    obtain ⟨k, hkn, rk, rk', hk, hend, rfl⟩ := (run_eq_some_iff hp).mp hrun
    have hplain := plainAt?_of_stateAt? hk
    rcases ending_of_releases h hr hrun with rfl | ⟨fault, rfl⟩
    · have hstep : i.opcodes.plainStep rk.frame.machine = (.ok .halt, rk'.frame.machine) :=
        plainStep_of_step hend rfl
      rw [OpcodeTable.plainLoop_of_halt hplain hkn hstep]
      rfl
    · have hstep : i.opcodes.plainStep rk.frame.machine = (.error fault, rk'.frame.machine) :=
        plainStep_of_step hend rfl
      rw [OpcodeTable.plainLoop_of_fault hplain hkn hstep]
      rfl

/-! ### Runs that are cut off -/

/-- **A run that is over because of its handler** has paused at an instruction, and leaves behind
what it had then, but for the cursor. -/
theorem machine_of_abort {n : Nat} {ending : Ending} (hrun : i.run handler n r = some (ending, r'))
    (hcompleted : ending ≠ .completed) (hmachine : ∀ fault, ending ≠ .failed (.machine fault)) :
    ∃ k < n, ∃ rk c, i.stateAt? handler r k = some rk ∧ i.nextCall? handler rk = some c ∧
      c.ending? = some ending ∧ r'.frame = { rk.frame with
        machine := { rk.frame.machine with code := rk.frame.machine.code.next.2 }
        status := .failed } := by
  rcases run_ending_cases hrun with hend | ⟨fault, hend⟩ | ⟨k, c, hc, hend⟩
  · exact absurd hend hcompleted
  · exact absurd hend (hmachine fault)
  obtain ⟨-, -, rk, r'', hk, hruns, hframe, -⟩ := run_aborted hc hend
  -- The run had enough steps to come to that instruction.
  have hkn : k < n := by
    by_contra hle
    have hnone : i.run handler n r = none :=
      (run_eq_none_iff (precompile?_of_stateAt? hk)).mpr
        (exists_stateAt?_of_le hk (Nat.not_lt.mp hle))
    rw [hnone] at hrun
    cases hrun
  obtain ⟨-, rfl⟩ := Prod.mk.inj (Option.some.inj (hrun.symm.trans (hruns n hkn)))
  obtain ⟨rk', hk', hcall⟩ := callAt?_eq_some_iff.mp hc
  obtain rfl := Option.some.inj (hk.symm.trans hk')
  exact ⟨k, hkn, rk, c, hk, hcall, hend, hframe⟩

end Interpreter

/-! ### Starting again -/

/-- The call with its cursor at another position. -/
def Frame.seek (f : Frame) (position : Nat) : Frame :=
  { f with machine := { f.machine with code := f.machine.code.seek position } }

/-- How a run ended, and the machine that it left behind. -/
def RunResult.left {σ : Type} (result : RunResult σ) : Ending × Machine :=
  (result.ending, result.frame.machine)

/-- The handler that leaves every pause unended. -/
def Handler.abandon : Handler Unit where
  onPause _ := return (.returned, ())

namespace Debugger

open Interpreter

variable {σ : Type}

theorem run_continueAlways_left (d : Debugger) (frame : Frame) (pauses steps : Nat)
    (journal : Journal) (hp : frame.precompile? = none) :
    (d.run Handler.continueAlways steps pauses frame journal).map RunResult.left =
      (d.interpreter.opcodes.plainLoop steps
        { frame.machine with returnData := ByteArray.empty }).map
          fun x => (Ending.ofPlain x.1, x.2) := by
  have hplain := run_eq_plainLoop (i := d.interpreter) (r := d.start frame pauses journal)
    Handler.continueAlways_releases trivial hp steps
  rw [run_eq, Option.map_map]
  exact hplain

/-- **Starting again after a pause that was not ended.**  If a run whose table assigns instructions
to bytes is over because its handler gave up or left a pause unended, then stack, memory and bytes
to be handed back are as they were just before the instruction was fetched that the run paused at,
and the cursor is behind its opcode, or still at it beyond the end of the code.  Once the cursor is
put back, the handler that always continues completes the run as if it had not been cut off: it ends
in the same way with the same machine, whatever the breakpoints. -/
theorem restart_of_abort (d : Debugger) {instruction? : UInt8 → Option Instruction}
    (hd : d.interpreter.opcodes = .assign instruction?) (handler : Handler σ) (state : σ)
    (frame : Frame) (journal : Journal) {n : Nat} {result : RunResult σ}
    (h : d.run handler n state frame journal = some result)
    (habort : result.ending = .failed .notReleased ∨
      ∃ error, result.ending = .failed (.handler error)) :
    ∃ k < n, ∃ rk c, d.interpreter.stateAt? handler (d.start frame state journal) k = some rk ∧
      d.interpreter.callAt? handler (d.start frame state journal) k = some c ∧
      c.ending? = some result.ending ∧
      let m := rk.frame.machine
      let p := c.session.position
      m.position = p ∧
      result.frame.machine =
        { m with code := m.code.seek (if p < m.code.size then p + 1 else p) } ∧
      ∀ (breakpoints : LineBreakpoints) (pauses pauses' steps : Nat) (journal' journal'' : Journal),
        (({ d with breakpoints } : Debugger).run Handler.continueAlways steps pauses
          (result.frame.seek p) journal').map RunResult.left =
        (d.run Handler.continueAlways (k + steps) pauses' frame journal'').map RunResult.left := by
  rw [run_eq] at h
  obtain ⟨⟨ending, r'⟩, hrun, rfl⟩ := Option.map_eq_some_iff.mp h
  change ending = _ ∨ ∃ error, ending = _ at habort
  have hcompleted : ending ≠ .completed := by
    rcases habort with rfl | ⟨error, rfl⟩ <;> simp
  have hmachine (fault : Fault) : ending ≠ .failed (.machine fault) := by
    rcases habort with rfl | ⟨error, rfl⟩ <;> simp
  obtain ⟨k, hkn, rk, c, hk, hcall, hend, hframe⟩ := machine_of_abort hrun hcompleted hmachine
  have hp : frame.precompile? = none := precompile?_of_stateAt? hk
  have hplain := plainAt?_of_stateAt? hk
  have hplain' := hplain
  rw [hd] at hplain'
  obtain ⟨hposition, -⟩ := nextCall?_position hcall
  refine ⟨k, hkn, rk, c, hk, callAt?_eq_some_iff.mpr ⟨rk, hk, hcall⟩, hend, hposition.symm, ?_, ?_⟩
  · rw [hframe, Code.next_eq_seek, hposition]
    rfl
  · intro breakpoints pauses pauses' steps journal' journal''
    have hp' : (r'.frame.seek c.session.position).precompile? = none := by
      rw [hframe, frame_of_stateAt? hk]
      exact hp
    -- The machine to start on is the one that the plain loop has at the instruction.
    have hstart : { (r'.frame.seek c.session.position).machine with
        returnData := ByteArray.empty } = rk.frame.machine := by
      have hdata : rk.frame.machine.returnData = ByteArray.empty :=
        OpcodeTable.plainAt?_returnData hplain'
      rw [hframe, Frame.seek, Code.next_eq_seek, hposition, ← hdata]
      rfl
    rw [run_continueAlways_left _ _ _ _ _ hp', run_continueAlways_left _ _ _ _ _ hp, hstart,
      ← OpcodeTable.plainLoop_add hplain]
    rfl

/-- A pause before the addition that was not ended, and the sum that the run comes to from there. -/
theorem restart_of_abort_sum :
    let d := ofLineMap sumMap
    ∃ result, d.run Handler.abandon 3 () sumFrame {} = some result ∧
      result.ending = .failed .notReleased ∧
      result.frame.machine.stack.words = [2, 1] ∧ result.frame.machine.position = 5 ∧
      (({ d with breakpoints := {} } : Debugger).run Handler.continueAlways 2 0
        (result.frame.seek 4) {}).map RunResult.left =
          (d.run Handler.continueAlways 4 0 sumFrame {}).map RunResult.left := by
  intro d
  have hends : (d.run Handler.abandon 3 () sumFrame {}).map (fun result =>
      (result.ending, result.frame.machine.stack.words, result.frame.machine.position)) =
      some (.failed .notReleased, [2, 1], 5) := by decide +kernel
  obtain ⟨result, hresult, hleft⟩ := Option.map_eq_some_iff.mp hends
  obtain ⟨hending, hleft⟩ := Prod.mk.inj hleft
  obtain ⟨hstack, hposition⟩ := Prod.mk.inj hleft
  obtain ⟨k, hkn, rk, c, hk, hc, -, hp, -, hrestart⟩ :=
    restart_of_abort d rfl Handler.abandon () sumFrame {} hresult (Or.inl hending)
  have hpauses : ∀ k < 3, (d.interpreter.callAt? Handler.abandon (d.start sumFrame () {}) k).map
      (fun c => c.session.position) = if k = 2 then some 4 else none := by decide +kernel
  have hpause := hpauses k hkn
  rw [hc, Option.map_some] at hpause
  obtain rfl : k = 2 := by
    by_contra hne
    rw [if_neg hne] at hpause
    cases hpause
  rw [if_pos rfl] at hpause
  rw [Option.some.inj hpause] at hrestart
  exact ⟨result, hresult, hending, hstack, hposition, hrestart {} 0 0 2 {} {}⟩

/-- **No restart in place.**  At the pause the cursor is at the addition and the stack has its two
operands.  Started again as it was left, the run does not come to the sum, but passes over it. -/
theorem not_restart_in_place :
    let d := ofLineMap sumMap
    ∃ result c, d.run Handler.abandon 3 () sumFrame {} = some result ∧
      result.ending = .failed .notReleased ∧
      d.interpreter.callAt? Handler.abandon (d.start sumFrame () {}) 2 = some c ∧
      c.ending? = some result.ending ∧ c.session.position = 4 ∧
      result.frame.machine.position = 5 ∧
      ((result.debugger.run Handler.continueAlways 5 0 result.frame {}).map fun x =>
        (x.ending, x.frame.machine.stack.words)) = some (.completed, [2, 1]) ∧
      ((d.run Handler.continueAlways 5 0 sumFrame {}).map fun x =>
        (x.ending, x.frame.machine.stack.words)) = some (.completed, [3]) := by
  intro d
  have hrun : (d.run Handler.abandon 3 () sumFrame {}).map (fun result =>
      (result.ending, result.frame.machine.position,
        (result.debugger.run Handler.continueAlways 5 0 result.frame {}).map fun x =>
          (x.ending, x.frame.machine.stack.words))) =
      some (.failed .notReleased, 5, some (.completed, [2, 1])) := by decide +kernel
  have hpause : (d.interpreter.callAt? Handler.abandon (d.start sumFrame () {}) 2).map
      (fun c => (c.ending?, c.session.position)) = some (some (.failed .notReleased), 4) := by
    decide +kernel
  obtain ⟨result, hresult, hleft⟩ := Option.map_eq_some_iff.mp hrun
  obtain ⟨hending, hleft⟩ := Prod.mk.inj hleft
  obtain ⟨hposition, hagain⟩ := Prod.mk.inj hleft
  obtain ⟨c, hc, hcall⟩ := Option.map_eq_some_iff.mp hpause
  obtain ⟨hend, hpaused⟩ := Prod.mk.inj hcall
  exact ⟨result, c, hresult, hending, hc, hend.trans (congrArg some hending.symm), hpaused,
    hposition, hagain, by decide +kernel⟩

end Debugger

end BytecodeDebugger
