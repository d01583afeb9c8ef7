import BytecodeDebugger.Proofs.Instruction.Fault
import BytecodeDebugger.Proofs.Run.Gather
import BytecodeDebugger.Proofs.Run.Restart

/-!
# The bytes that a run hands back

A run starts with nothing to be handed back, whatever an earlier one has left in its call.  Only two
instructions hand bytes back (`Instruction.handedBack?` says which), and no run goes on after one
that did.  So there is nothing as long as the run lasts, and after it there are the bytes of its
last instruction or none at all, on every way out (`Interpreter.returnData_of_run`).
-/

namespace BytecodeDebugger

/-! ### One instruction -/

theorem Memory.peek_touch {m : Memory} {offset size : Nat} (h : Accessible offset size) :
    (m.touch offset size).peek offset size = .ok (m.window offset size) := by
  have hread : (m.read offset size).1 = .ok (m.window offset size) := by rw [read_eq, if_pos h]
  have hpeek := peek_of_read hread
  unfold peek at hpeek ⊢
  rwa [window_congr (m.byteAt_touch offset size)]

namespace Instruction

variable {x : Instruction} {m : Machine} {offset size : Nat}

/-- The range of memory that an instruction hands back: it takes it off the stack, and the range is
not refused. -/
def handedBack? (x : Instruction) (m : Machine) : Option (Nat × Nat) :=
  match m.stack.words with
  | offset :: size :: _ =>
    if x.handsBack = true ∧ Memory.Accessible offset.toNat size.toNat then
      some (offset.toNat, size.toNat)
    else none
  | _ => none

theorem handedBack?_eq_some_iff : x.handedBack? m = some (offset, size) ↔
    x.handsBack = true ∧ Memory.Accessible offset size ∧ ∃ (first second : Word) (rest : List Word),
      m.stack.words = first :: second :: rest ∧ first.toNat = offset ∧ second.toNat = size := by
  unfold handedBack?
  rcases m.stack.words with _ | ⟨first, _ | ⟨second, rest⟩⟩
  · simp
  · simp
  · rw [Option.ite_none_right_eq_some]
    constructor
    · rintro ⟨⟨hx, haccess⟩, hrange⟩
      obtain ⟨rfl, rfl⟩ := Prod.mk.inj (Option.some.inj hrange)
      exact ⟨hx, haccess, first, second, rest, rfl, rfl, rfl⟩
    · rintro ⟨hx, haccess, first', second', rest', hwords, rfl, rfl⟩
      obtain ⟨rfl, rfl, rfl⟩ : first = first' ∧ second = second' ∧ rest = rest' := by
        simpa using hwords
      exact ⟨⟨hx, haccess⟩, rfl⟩

/-- To hand back a range is to take it off the stack and to read it. -/
theorem run_handBack (m : Machine) : handBack.run m = match m.stack.words with
    | offset :: size :: rest =>
      let data := m.memory.window offset.toNat size.toNat
      if Memory.Accessible offset.toNat size.toNat then
        (.ok data, { m with
          stack := ⟨rest⟩
          memory := m.memory.touch offset.toNat size.toNat
          returnData := data })
      else (.error (.memoryLimit offset.toNat size.toNat), { m with stack := ⟨rest⟩ })
    | _ => (.error (m.stack.underflow 2), m) := by
  rw [handBack, Action.run_bind, Action.popPair, Action.run_onStack, Stack.popPair]
  rcases hwords : m.stack.words with _ | ⟨offset, _ | ⟨size, rest⟩⟩
  · rfl
  · rfl
  · have hread : (Action.onMemory (·.read offset.toNat size.toNat)).run
        { m with stack := ⟨rest⟩ } = ((m.memory.read offset.toNat size.toNat).1,
          { m with stack := ⟨rest⟩, memory := (m.memory.read offset.toNat size.toNat).2 }) := rfl
    show ((do let data ← Action.onMemory (·.read offset.toNat size.toNat)
              Action.setReturnData data
              return data : Action ByteArray)).run { m with stack := ⟨rest⟩ } = _
    rw [Action.run_bind, hread, Memory.read_eq]
    by_cases haccess : Memory.Accessible offset.toNat size.toNat
    · simp only [if_pos haccess]
      rfl
    · simp only [if_neg haccess]

/-- A range that is handed back is one that the memory shows afterwards. -/
theorem run_handBack_of_some (h : x.handedBack? m = some (offset, size)) :
    ∃ m', handBack.run m = (.ok m'.returnData, m') ∧
      m'.memory.peek offset size = .ok m'.returnData := by
  obtain ⟨-, haccess, first, second, rest, hwords, rfl, rfl⟩ := handedBack?_eq_some_iff.mp h
  let m' : Machine := { m with
    stack := ⟨rest⟩
    memory := m.memory.touch first.toNat second.toNat
    returnData := m.memory.window first.toNat second.toNat }
  have hback : handBack.run m = (.ok m'.returnData, m') := by
    rw [run_handBack, hwords]
    exact if_pos haccess
  exact ⟨m', hback, Memory.peek_touch haccess⟩

theorem run_handBack_of_none (hx : x.handsBack = true) (h : x.handedBack? m = none) :
    ∃ fault m', handBack.run m = (.error fault, m') ∧ m'.returnData = m.returnData := by
  rw [run_handBack]
  rcases hwords : m.stack.words with _ | ⟨offset, _ | ⟨size, rest⟩⟩
  · exact ⟨_, _, rfl, rfl⟩
  · exact ⟨_, _, rfl, rfl⟩
  · have haccess : ¬ Memory.Accessible offset.toNat size.toNat := by
      intro haccess
      rw [handedBack?_eq_some_iff.mpr ⟨hx, haccess, offset, size, rest, hwords, rfl, rfl⟩] at h
      cases h
    refine ⟨.memoryLimit offset.toNat size.toNat, { m with stack := ⟨rest⟩ }, ?_, rfl⟩
    exact if_neg haccess

/-- **An instruction that hands bytes back** is the last one of its run, and leaves the bytes that
the memory shows then. -/
theorem execute_of_handedBack (h : x.handedBack? m = some (offset, size)) :
    ∃ m', m'.memory.peek offset size = .ok m'.returnData ∧
      (x = .ret ∧ x.execute.run m = (.ok .halt, m') ∨
        x = .revert ∧ x.execute.run m = (.error (.reverted m'.returnData), m')) := by
  obtain ⟨m', hback, hpeek⟩ := run_handBack_of_some h
  obtain ⟨hx, -⟩ := handedBack?_eq_some_iff.mp h
  refine ⟨m', hpeek, ?_⟩
  cases x with
  | ret =>
    left
    refine ⟨rfl, ?_⟩
    unfold execute
    rw [Action.run_bind, hback]
    rfl
  | revert =>
    right
    refine ⟨rfl, ?_⟩
    unfold execute
    rw [Action.run_bind, hback]
    rfl
  | _ => cases hx

/-- **An instruction that hands nothing back** leaves what there was, and does not fail on behalf of
the program. -/
theorem execute_of_not_handedBack (h : x.handedBack? m = none) :
    (x.execute.run m).2.returnData = m.returnData ∧
      ∀ data, (x.execute.run m).1 ≠ .error (.reverted data) := by
  cases hx : x.handsBack with
  | false =>
    refine ⟨keeps_returnData hx m, fun data hrevert => ?_⟩
    have hother : x ≠ .revert := by
      rintro rfl
      cases hx
    exact failsOnly_execute hother m _ hrevert
  | true =>
    -- It was refused before it has left anything, and so for a reason of the machine.
    obtain ⟨fault, m', hback, hdata⟩ := run_handBack_of_none hx h
    have hfault : fault.Intrinsic := failsOnly_handBack m fault (congrArg Prod.fst hback)
    have hrun : x.execute.run m = (.error fault, m') := by
      cases x with
      | ret => unfold execute; rw [Action.run_bind, hback]
      | revert => unfold execute; rw [Action.run_bind, hback]
      | _ => cases hx
    rw [hrun]
    refine ⟨hdata, fun data heq => ?_⟩
    rw [Except.error.inj heq] at hfault
    exact hfault

end Instruction

/-- The range of memory that a fetched instruction hands back, by what its opcode stands for. -/
def Fetched.handedBack? (instruction? : UInt8 → Option Instruction) (f : Fetched) (m : Machine) :
    Option (Nat × Nat) :=
  (instruction? f.opcode).bind (·.handedBack? m)

namespace Interpreter

/-! ### A whole run -/

variable {ω σ : Type} [BreakpointOracle ω] {i : Interpreter} {handler : Handler σ} {r r' : Run ω σ}
  {instruction? : UInt8 → Option Instruction}

section Action

variable {m : Machine} {offset size : Nat}

theorem action_of_handedBack (hi : i.opcodes = .assign instruction?)
    (h : (i.fetch r).1.handedBack? instruction? m = some (offset, size)) :
    ∃ m', m'.memory.peek offset size = .ok m'.returnData ∧
      (instruction? (i.fetch r).1.opcode = some .ret ∧
          (action (i.fetch r).1).run m = (.ok .halt, m') ∨
        instruction? (i.fetch r).1.opcode = some .revert ∧
          (action (i.fetch r).1).run m = (.error (.reverted m'.returnData), m')) := by
  obtain ⟨x, hx, hback⟩ := Option.bind_eq_some_iff.mp h
  obtain ⟨m', hpeek, hrun⟩ := Instruction.execute_of_handedBack hback
  rw [action_of_assign hi, hx]
  refine ⟨m', hpeek, hrun.imp ?_ ?_⟩
  · rintro ⟨rfl, hrun⟩
    exact ⟨rfl, hrun⟩
  · rintro ⟨rfl, hrun⟩
    exact ⟨rfl, hrun⟩

theorem action_of_not_handedBack (hi : i.opcodes = .assign instruction?)
    (h : (i.fetch r).1.handedBack? instruction? m = none) :
    ((action (i.fetch r).1).run m).2.returnData = m.returnData ∧
      ∀ data, ((action (i.fetch r).1).run m).1 ≠ .error (.reverted data) := by
  unfold Fetched.handedBack? at h
  rw [action_of_assign hi]
  cases hx : instruction? (i.fetch r).1.opcode with
  | some x =>
    rw [hx] at h
    exact Instruction.execute_of_not_handedBack h
  | none => exact ⟨rfl, fun data heq => by cases heq⟩

end Action

/-- The last instruction that was carried out within the first `n`, with the run when it was. -/
def lastDispatch? (i : Interpreter) (handler : Handler σ) (r : Run ω σ) (n : Nat) :
    Option (Fetched × Run ω σ) :=
  (i.gather handler r (fun rk => (i.nextDispatch? handler rk).toList) n).getLast?

theorem returnData_of_stateAt? (hi : i.opcodes = .assign instruction?) {k : Nat} {rk : Run ω σ}
    (hk : i.stateAt? handler r k = some rk) : rk.frame.machine.returnData = ByteArray.empty := by
  have hplain := plainAt?_of_stateAt? hk
  rw [hi] at hplain
  exact OpcodeTable.plainAt?_returnData hplain

/-- An instruction that the run goes on after hands nothing back. -/
theorem handedBack?_of_proceed (hi : i.opcodes = .assign instruction?) {f : Fetched}
    {rk : Run ω σ} (hstep : i.step handler r = (none, r'))
    (hf : i.nextDispatch? handler r = some (f, rk)) :
    f.handedBack? instruction? rk.frame.machine = none := by
  obtain ⟨-, rfl, rfl⟩ := nextDispatch?_eq_some_iff.mp hf
  obtain ⟨-, hrun, -⟩ := step_eq_none_iff.mp hstep
  rw [afterPause_frame]
  rw [Option.eq_none_iff_forall_ne_some]
  rintro ⟨offset, size⟩ hback
  obtain ⟨m', -, ⟨-, hhalt⟩ | ⟨-, hfail⟩⟩ := action_of_handedBack hi hback
  · rw [hhalt] at hrun
    cases hrun
  · rw [hfail] at hrun
    cases hrun

theorem lastDispatch?_succ {k : Nat} {f : Fetched} {rk rk' : Run ω σ}
    (hk : i.stateAt? handler r k = some rk) (hf : i.nextDispatch? handler rk = some (f, rk')) :
    i.lastDispatch? handler r (k + 1) = some (f, rk') := by
  unfold lastDispatch?
  rw [gather_succ, hk, Option.map_some, Option.getD_some, hf, Option.toList_some,
    List.getLast?_concat]

/-- As long as a run lasts it has handed nothing back. -/
theorem handedBack?_of_lastDispatch? (hi : i.opcodes = .assign instruction?) {k : Nat}
    {f : Fetched} {rk rk' : Run ω σ} (hk : i.stateAt? handler r k = some rk)
    (hf : i.lastDispatch? handler r k = some (f, rk')) :
    f.handedBack? instruction? rk'.frame.machine = none := by
  cases k with
  | zero => cases hf
  | succ k =>
    obtain ⟨rj, hj, hstep⟩ := stateAt?_succ_eq_some_iff.mp hk
    obtain ⟨⟨f', rj'⟩, hdispatch⟩ := Option.isSome_iff_exists.mp
      (nextDispatch?_isSome_iff.mpr (step_eq_none_iff.mp hstep).1)
    rw [lastDispatch?_succ hj hdispatch] at hf
    obtain ⟨rfl, rfl⟩ := Prod.mk.inj (Option.some.inj hf)
    exact handedBack?_of_proceed hi hstep hdispatch

/-- A run that ends has nothing to hand back, or it has the bytes of its last instruction. -/
theorem returnData_of_end (hi : i.opcodes = .assign instruction?) {n : Nat} {ending : Ending}
    (hp : r.frame.precompile? = none) (h : i.run handler n r = some (ending, r')) :
    let m := r'.frame.machine
    (∃ f rk offset size, i.lastDispatch? handler r n = some (f, rk) ∧
      f.handedBack? instruction? rk.frame.machine = some (offset, size) ∧
      m.memory.peek offset size = .ok m.returnData ∧
      (instruction? f.opcode = some .ret ∧ ending = .completed ∨
        instruction? f.opcode = some .revert ∧
          ending = .failed (.machine (.reverted m.returnData)))) ∨
    ((∀ f rk, i.lastDispatch? handler r n = some (f, rk) →
        f.handedBack? instruction? rk.frame.machine = none) ∧
      m.returnData = ByteArray.empty ∧ ∀ data, ending ≠ .failed (.machine (.reverted data))) := by
  obtain ⟨k, hkn, rk, rk', hk, hend, rfl⟩ := (run_eq_some_iff hp).mp h
  show (∃ f rk offset size, _ ∧ _ ∧ rk'.frame.machine.memory.peek offset size =
    .ok rk'.frame.machine.returnData ∧ _) ∨ _ ∧ rk'.frame.machine.returnData = _ ∧ _
  have hempty := returnData_of_stateAt? hi hk
  have hpaused : (i.afterPause handler rk).frame.machine.returnData = ByteArray.empty := by
    rw [afterPause_frame]
    exact hempty
  have hlast : i.lastDispatch? handler r n =
      (i.gather handler r (fun rk => (i.nextDispatch? handler rk).toList) k ++
        (i.nextDispatch? handler rk).toList).getLast? := by
    rw [lastDispatch?, gather_of_end _ hk hend hkn]
  rcases step_eq_some_cases hend with ⟨hcall, rfl⟩ | ⟨hgo, hresult, rfl⟩
  · -- The run ends in a pause, and the last instruction is one that it went on after.
    have hnone : i.nextDispatch? handler rk = none := by
      rw [← Option.not_isSome_iff_eq_none, nextDispatch?_isSome_iff, hcall]
      simp
    rw [hnone, Option.toList_none, List.append_nil] at hlast
    obtain ⟨c, -, hc⟩ := Option.bind_eq_some_iff.mp hcall
    refine Or.inr ⟨fun f rj hf => ?_, hpaused, fun data hdata => ?_⟩
    · rw [hlast] at hf
      exact handedBack?_of_lastDispatch? hi hk hf
    · rw [hdata] at hc
      exact HandlerCall.ending?_ne_ofResult? hc (.error (.reverted data)) rfl
  · -- The run ends in an instruction that it carried out, which is then the last one.
    have hdispatch : i.nextDispatch? handler rk = some ((i.fetch rk).1, i.afterPause handler rk) :=
      nextDispatch?_eq_some_iff.mpr ⟨hgo, rfl, rfl⟩
    rw [hdispatch, Option.toList_some, List.getLast?_concat] at hlast
    rw [← afterPause_frame i handler rk] at hresult ⊢
    cases hback : (i.fetch rk).1.handedBack? instruction?
        (i.afterPause handler rk).frame.machine with
    | some range =>
      obtain ⟨offset, size⟩ := range
      obtain ⟨m', hpeek, hrun⟩ := action_of_handedBack hi hback
      refine Or.inl ⟨_, _, offset, size, hlast, hback, ?_⟩
      rcases hrun with ⟨hret, hrun⟩ | ⟨hrevert, hrun⟩
      · rw [hrun] at hresult ⊢
        exact ⟨hpeek, Or.inl ⟨hret, (Option.some.inj hresult).symm⟩⟩
      · rw [hrun] at hresult ⊢
        exact ⟨hpeek, Or.inr ⟨hrevert, (Option.some.inj hresult).symm⟩⟩
    | none =>
      obtain ⟨hdata, hrevert⟩ := action_of_not_handedBack hi hback
      refine Or.inr ⟨fun f rj hf => ?_, hdata.trans hpaused, fun data hending => ?_⟩
      · obtain ⟨rfl, rfl⟩ := Prod.mk.inj (Option.some.inj (hlast.symm.trans hf))
        exact hback
      · rw [hending] at hresult
        exact hrevert data (Ending.ofResult?_injective (hresult.trans rfl))

/-- **The bytes to be handed back.**  The opcodes stand for instructions.  During a run there are
no such bytes: not before any of its instructions, and not in a pause, whatever is asked of the
session.  After it there are those of its last instruction: if that is one of the two that hand back
a range of memory and the range was not refused, they are what the memory shows there, and the run
has come to its end or has failed with them; and otherwise there are none.  What an earlier run has
left in the call makes no difference, neither its bytes nor its status. -/
theorem returnData_of_run (i : Interpreter) {instruction? : UInt8 → Option Instruction}
    (hi : i.opcodes = .assign instruction?) (handler : Handler σ) (r : Run ω σ)
    (h : r.frame.precompile? = none) :
    (∀ k rk, i.stateAt? handler r k = some rk → rk.frame.machine.returnData = ByteArray.empty) ∧
    (∀ k c requests, i.callAt? handler r k = some c →
      let s := c.session.afterRequests requests
      s.machine.returnData = ByteArray.empty ∧
        (s.isReleased = false → s.returnData? = .ok ByteArray.empty)) ∧
    (∀ n ending r', i.run handler n r = some (ending, r') →
      let m := r'.frame.machine
      (∀ data, ending = .failed (.machine (.reverted data)) → m.returnData = data) ∧
      ((∃ f rk offset size, i.lastDispatch? handler r n = some (f, rk) ∧
          f.handedBack? instruction? rk.frame.machine = some (offset, size) ∧
          m.memory.peek offset size = .ok m.returnData ∧
          (instruction? f.opcode = some .ret ∧ ending = .completed ∨
            instruction? f.opcode = some .revert ∧
              ending = .failed (.machine (.reverted m.returnData)))) ∨
        ((∀ f rk, i.lastDispatch? handler r n = some (f, rk) →
            f.handedBack? instruction? rk.frame.machine = none) ∧
          m.returnData = ByteArray.empty ∧
          ∀ data, ending ≠ .failed (.machine (.reverted data))))) ∧
    ∀ returnData status,
      let r₀ : Run ω σ := { r with
        frame := { r.frame with machine := { r.frame.machine with returnData }, status } }
      (∀ k, i.stateAt? handler r₀ k = i.stateAt? handler r k) ∧
        ∀ n, i.run handler n r₀ = i.run handler n r := by
  refine ⟨fun k rk hk => returnData_of_stateAt? hi hk, ?_, ?_, ?_⟩
  · intro k c requests hc s
    obtain ⟨rk, hk, hcall⟩ := callAt?_eq_some_iff.mp hc
    have hempty : rk.frame.machine.returnData = ByteArray.empty := returnData_of_stateAt? hi hk
    have hdata : s.machine.returnData = ByteArray.empty := by
      rw [c.session.afterRequests_machine, nextCall?_machine hcall]
      exact hempty
    refine ⟨hdata, fun hs => ?_⟩
    rw [(Session.shows_machine hs).returnData, hdata]
  · intro n ending r' hrun m
    have hend := returnData_of_end hi h hrun
    refine ⟨fun data hdata => ?_, hend⟩
    rcases hend with ⟨f, rk, offset, size, -, -, -, hending⟩ | ⟨-, -, hrevert⟩
    · rcases hending with ⟨-, hcompleted⟩ | ⟨-, hreverted⟩
      · rw [hcompleted] at hdata
        cases hdata
      · rw [hreverted] at hdata
        simpa using hdata
    · exact absurd hdata (hrevert data)
  · intro returnData status r₀
    -- To enter the call overwrites both, so the two runs are one from their first state on.
    refine ⟨fun k => ?_, fun n => rfl⟩
    induction k with
    | zero => rfl
    | succ k ih => rw [stateAt?, stateAt?, ih]

/-- A call that was run before and failed with one byte.  Its program stores a word and fails with
the last six bytes of it. -/
def revertRun : Run LineBreakpoints Nat where
  frame := {
    machine := {
      code := { bytes := ⟨#[0x60, 42, 0x60, 0, 0x52, 0x60, 6, 0x60, 2, 0xfd]⟩ }
      returnData := ⟨#[9]⟩ }
    status := .failed }
  oracle := { map := LineMap.ofLists [(4, 10)] [10] }
  handler := 0

/-- At the pause before the word is stored the byte of the earlier run is gone.  The run fails with
the bytes that the memory shows, and would do so with nothing left of the earlier run. -/
theorem returnData_of_run_revert :
    revertRun.frame.precompile? = none ∧
    (∃ c, callAt? {} Handler.continueAlways revertRun 2 = some c ∧
      c.session.returnData? = .ok ByteArray.empty) ∧
    (∃ r', run {} Handler.continueAlways 6 revertRun =
        some (.failed (.machine (.reverted ⟨#[0, 0, 0, 0, 0, 42]⟩)), r') ∧
      r'.frame.machine.returnData = ⟨#[0, 0, 0, 0, 0, 42]⟩ ∧
      r'.frame.machine.memory.peek 2 6 = .ok ⟨#[0, 0, 0, 0, 0, 42]⟩) ∧
    run {} Handler.continueAlways 6 { revertRun with frame := { revertRun.frame with
      machine := { revertRun.frame.machine with returnData := ByteArray.empty }
      status := .idle } } = run {} Handler.continueAlways 6 revertRun := by
  have hnone : revertRun.frame.precompile? = none := rfl
  obtain ⟨-, hcalls, hends, hsame⟩ :=
    returnData_of_run (i := {}) rfl Handler.continueAlways revertRun hnone
  have hrun : (run {} Handler.continueAlways 6 revertRun).map Prod.fst =
      some (.failed (.machine (.reverted ⟨#[0, 0, 0, 0, 0, 42]⟩))) := by decide +kernel
  obtain ⟨⟨ending, r'⟩, hr', hending⟩ := Option.map_eq_some_iff.mp hrun
  obtain rfl : ending = _ := hending
  have hc : (callAt? {} Handler.continueAlways revertRun 2).isSome := by decide +kernel
  obtain ⟨c, hc⟩ := Option.isSome_iff_exists.mp hc
  have hlast : (lastDispatch? {} Handler.continueAlways revertRun 6).bind
      (fun x => x.1.handedBack? Instruction.ofOpcode? x.2.frame.machine) = some (2, 6) := by
    decide +kernel
  obtain ⟨hreverted, hend⟩ := hends 6 _ r' hr'
  have hdata : r'.frame.machine.returnData = _ := hreverted _ rfl
  have hpeek : r'.frame.machine.memory.peek 2 6 = .ok r'.frame.machine.returnData := by
    rcases hend with ⟨f, rk, offset, size, hf, hback, hpeek, -⟩ | ⟨-, -, hrevert⟩
    · rw [hf, Option.bind_some, hback] at hlast
      obtain ⟨rfl, rfl⟩ := Prod.mk.inj (Option.some.inj hlast)
      exact hpeek
    · exact absurd rfl (hrevert _)
  refine ⟨hnone, ⟨c, hc, (hcalls 2 c [] hc).2 ?_⟩, ⟨r', hr', hdata, hdata ▸ hpeek⟩,
    (hsame _ _).2 6⟩
  obtain ⟨rk, -, hcall⟩ := callAt?_eq_some_iff.mp hc
  show c.session.resumption.isSome = false
  rw [nextCall?_suspended hcall]
  rfl

end Interpreter

end BytecodeDebugger
