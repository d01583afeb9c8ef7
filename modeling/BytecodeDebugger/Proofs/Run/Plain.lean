import BytecodeDebugger.Proofs.Machine.Code
import BytecodeDebugger.Proofs.Run.History

/-!
# Runs and the plain loop

The plain loop fetches an instruction and carries it out, again and again, and knows nothing of
oracles, pauses and handlers (`OpcodeTable.plainStep`, `OpcodeTable.plainLoop`).

A run carries out the same instructions on the same machines as the plain loop does
(`Interpreter.plainAt?_of_stateAt?`), since neither the fetch nor the pause between it and the
instruction touches anything of the machine but the cursor.  `Interpreter.run_transparent` draws the
conclusions: what a session shows is what the plain loop has, and a run that is not cut short by its
handler ends as the plain loop ends, after as many instructions.
-/

namespace BytecodeDebugger

/-! ### The plain loop -/

/-- The opcode at the cursor, and the machine with the cursor behind it. -/
def Machine.fetch (m : Machine) : UInt8 × Machine :=
  (m.code.next.1, { m with code := m.code.next.2 })

theorem Machine.fetch_of_some {m : Machine} {opcode : UInt8}
    (h : m.code.bytes[m.position]? = some opcode) :
    m.fetch = (opcode, { m with code := m.code.seek (m.position + 1) }) := by
  rw [fetch, Code.next_of_some h]
  rfl

theorem Machine.fetch_of_none {m : Machine} (h : m.code.bytes[m.position]? = none) :
    m.fetch = (Opcode.stop, m) := by
  rw [fetch, Code.next_of_none h]

namespace OpcodeTable

/-- What a byte of code does: what it stands for, or else it fails. -/
def behaviour (t : OpcodeTable) (opcode : UInt8) : Action Flow :=
  match t.get? opcode with
  | some entry => entry.execute
  | none => throw (.invalidInstruction opcode)

theorem get?_assign (instruction? : UInt8 → Option Instruction) (opcode : UInt8) :
    (assign instruction?).get? opcode = (instruction? opcode).map Instruction.entry :=
  rfl

theorem behaviour_assign (instruction? : UInt8 → Option Instruction) (opcode : UInt8) :
    (assign instruction?).behaviour opcode = match instruction? opcode with
      | some x => x.execute
      | none => throw (.invalidInstruction opcode) := by
  rw [behaviour, get?_assign]
  cases instruction? opcode <;> rfl

/-- Fetches an instruction and carries it out. -/
def plainStep (t : OpcodeTable) (m : Machine) : Except Fault Flow × Machine :=
  (t.behaviour m.fetch.1).run m.fetch.2

/-- Carries out instructions until one ends the program, at most the given number of them. -/
def plainLoop (t : OpcodeTable) : Nat → Machine → Option (Except Fault Unit × Machine)
  | 0, _ => none
  | steps + 1, m =>
    match t.plainStep m with
    | (.ok .proceed, m) => t.plainLoop steps m
    | (.ok .halt, m) => some (.ok (), m)
    | (.error fault, m) => some (.error fault, m)

/-- The machine just before the plain loop fetches its instruction number `k`, if it comes that
far. -/
def plainAt? (t : OpcodeTable) (m : Machine) : Nat → Option Machine
  | 0 => some m
  | k + 1 => (t.plainAt? m k).bind fun m =>
    match t.plainStep m with
    | (.ok .proceed, m) => some m
    | _ => none

/-- What the plain loop carries out as its instruction number `k`: its position, its opcode, and the
machine that it acts on. -/
def plainDispatchAt? (t : OpcodeTable) (m : Machine) (k : Nat) : Option (Nat × UInt8 × Machine) :=
  (t.plainAt? m k).map fun m => (m.position, m.fetch)

variable {t : OpcodeTable} {m m' : Machine}

theorem plainStep_of_some {opcode : UInt8} (h : m.code.bytes[m.position]? = some opcode) :
    t.plainStep m = (t.behaviour opcode).run { m with code := m.code.seek (m.position + 1) } := by
  rw [plainStep, Machine.fetch_of_some h]

/-- Beyond the end of the code there is the instruction that stops. -/
theorem plainStep_of_none (h : m.code.bytes[m.position]? = none) :
    reference.plainStep m = (.ok .halt, m) := by
  rw [plainStep, Machine.fetch_of_none h]
  rfl

theorem plainAt?_succ_eq_some_iff {k : Nat} : t.plainAt? m (k + 1) = some m' ↔
    ∃ mk, t.plainAt? m k = some mk ∧ t.plainStep mk = (.ok .proceed, m') := by
  rw [plainAt?, Option.bind_eq_some_iff]
  refine exists_congr fun mk => and_congr_right fun _ => ?_
  rcases t.plainStep mk with ⟨fault | flow, m''⟩
  · simp
  · cases flow <;> simp

/-- From its instruction number `k` on, the plain loop goes on as if it started there. -/
theorem plainLoop_add {k : Nat} {mk : Machine} (hk : t.plainAt? m k = some mk) (n : Nat) :
    t.plainLoop (k + n) m = t.plainLoop n mk := by
  induction k generalizing mk n with
  | zero =>
    obtain rfl := Option.some.inj hk
    rw [Nat.zero_add]
  | succ k ih =>
    obtain ⟨mk', hmk', hstep⟩ := plainAt?_succ_eq_some_iff.mp hk
    rw [show k + 1 + n = k + (n + 1) by omega, ih hmk', plainLoop, hstep]

theorem plainLoop_of_halt {k n : Nat} {mk : Machine} (hk : t.plainAt? m k = some mk) (hkn : k < n)
    (hstep : t.plainStep mk = (.ok .halt, m')) : t.plainLoop n m = some (.ok (), m') := by
  obtain ⟨j, rfl⟩ : ∃ j, n = k + (j + 1) := ⟨n - k - 1, by omega⟩
  rw [plainLoop_add hk, plainLoop, hstep]

theorem plainLoop_of_fault {k n : Nat} {mk : Machine} {fault : Fault}
    (hk : t.plainAt? m k = some mk) (hkn : k < n) (hstep : t.plainStep mk = (.error fault, m')) :
    t.plainLoop n m = some (.error fault, m') := by
  obtain ⟨j, rfl⟩ : ∃ j, n = k + (j + 1) := ⟨n - k - 1, by omega⟩
  rw [plainLoop_add hk, plainLoop, hstep]

end OpcodeTable

/-! ### What a session shows -/

/-- A session that shows a machine: its stack, its memory and the bytes to be handed back. -/
structure Session.Shows (s : Session) (m : Machine) : Prop where
  stack : s.stack? = .ok m.stack.fromBottom
  memory : ∀ offset length, length ≤ Memory.limit →
    s.memory? offset length = .ok (m.memory.window offset length)
  memorySize : s.memorySize? = .ok m.memory.size
  returnData : s.returnData? = .ok m.returnData

theorem Session.shows_machine {s : Session} (h : s.isReleased = false) : s.Shows s.machine := by
  have hs : s.resumption = none := by simpa [isReleased] using h
  refine ⟨whileSuspended_of_suspended hs _, fun offset length hlength => ?_,
    whileSuspended_of_suspended hs _, whileSuspended_of_suspended hs _⟩
  rw [memory?, whileSuspended_of_suspended hs]
  simp only [hlength]
  rfl

/-! ### The simulation -/

namespace Interpreter

variable {ω σ : Type} [BreakpointOracle ω] {i : Interpreter} {handler : Handler σ} {r r' : Run ω σ}

theorem action_of_assign {instruction? : UInt8 → Option Instruction}
    (hi : i.opcodes = .assign instruction?) (r : Run ω σ) :
    action (i.fetch r).1 = match instruction? (i.fetch r).1.opcode with
      | some x => x.execute
      | none => throw (.invalidInstruction (i.fetch r).1.opcode) := by
  have haction : action (i.fetch r).1 = i.opcodes.behaviour (i.fetch r).1.opcode := rfl
  rw [haction, hi, OpcodeTable.behaviour_assign]

/-- A step that a run goes on after is one that the plain loop goes on after. -/
theorem step_machine_of_proceed (h : i.step handler r = (none, r')) :
    i.opcodes.plainStep r.frame.machine = (.ok .proceed, r'.frame.machine) :=
  (step_eq_none_iff.mp h).2.1

/-- Without a pause, a step is one of the plain loop. -/
theorem step_of_no_call (h : i.nextCall? handler r = none) :
    i.step handler r = (Ending.ofResult? (i.opcodes.plainStep r.frame.machine).1,
      (i.fetch r).2.withMachine (i.opcodes.plainStep r.frame.machine).2) := by
  rw [step_eq, h, afterPause, pause_of_no_call h]
  exact dispatch_eq (i.fetch r).1 (i.fetch r).2

/-- **The simulation**: before each instruction of a run, its machine is that of the plain loop. -/
theorem plainAt?_of_stateAt? {k : Nat} {rk : Run ω σ} (hk : i.stateAt? handler r k = some rk) :
    i.opcodes.plainAt? r.enter.frame.machine k = some rk.frame.machine := by
  refine stateAt?_induction (P := fun k rk =>
    i.opcodes.plainAt? r.enter.frame.machine k = some rk.frame.machine) hk rfl ?_
  intro j rj rj' _ hplain hstep
  have hnext := step_machine_of_proceed hstep
  exact OpcodeTable.plainAt?_succ_eq_some_iff.mpr ⟨rj.frame.machine, hplain, hnext⟩

theorem plainDispatchAt?_of_dispatchAt? {k : Nat} {f : Fetched}
    (h : i.dispatchAt? handler r k = some (f, r')) :
    i.opcodes.plainDispatchAt? r.enter.frame.machine k =
      some (f.position, f.opcode, r'.frame.machine) := by
  obtain ⟨rk, hk, hdispatch⟩ := Option.bind_eq_some_iff.mp h
  obtain ⟨-, rfl, rfl⟩ := nextDispatch?_eq_some_iff.mp hdispatch
  rw [OpcodeTable.plainDispatchAt?, plainAt?_of_stateAt? hk, afterPause_frame]
  rfl

/-- During a pause a session shows the machine of the plain loop, whatever is asked of it. -/
theorem shows_plainAt? {k : Nat} {c : HandlerCall σ} {requests : List Request}
    (hc : i.callAt? handler r k = some c)
    (hs : (c.session.afterRequests requests).isReleased = false) :
    ∃ m, i.opcodes.plainAt? r.enter.frame.machine k = some m ∧
      (c.session.afterRequests requests).Shows m := by
  obtain ⟨rk, hk, hcall⟩ := Option.bind_eq_some_iff.mp hc
  refine ⟨rk.frame.machine, plainAt?_of_stateAt? hk, ?_⟩
  have hmachine := (c.session.afterRequests_machine requests).trans (nextCall?_machine hcall)
  obtain ⟨hstack, hmemory, hsize, hdata⟩ := Session.shows_machine hs
  rw [hmachine] at hstack hmemory hsize hdata
  exact ⟨hstack, hmemory, hsize, hdata⟩

/-- A run that ends with what an instruction came to ends as the plain loop does. -/
theorem plainStep_of_step {ending : Ending} {result : Except Fault Flow}
    (h : i.step handler r = (some ending, r')) (hresult : Ending.ofResult? result = some ending) :
    i.opcodes.plainStep r.frame.machine = (result, r'.frame.machine) := by
  rcases step_eq_some_cases h with ⟨hcall, -⟩ | ⟨-, hend, rfl⟩
  · obtain ⟨c, -, hc⟩ := Option.bind_eq_some_iff.mp hcall
    exact absurd hresult (HandlerCall.ending?_ne_ofResult? hc result)
  · exact Prod.ext (Ending.ofResult?_injective (hend.trans hresult.symm)) rfl

/-- **Transparency.**  Whatever the oracle and the handler do, a run carries out what the plain loop
carries out, started on the same machine with nothing to be handed back: every instruction with the
same position, opcode and machine; every session shows the machine of the plain loop; and a run that
is not cut short by its handler ends as the plain loop does, on the same machine and after as many
instructions. -/
theorem run_transparent (i : Interpreter) (handler : Handler σ) (r : Run ω σ)
    (h : r.frame.precompile? = none) :
    let m := { r.frame.machine with returnData := ByteArray.empty }
    (∀ k f rk, i.dispatchAt? handler r k = some (f, rk) →
      i.opcodes.plainDispatchAt? m k = some (f.position, f.opcode, rk.frame.machine)) ∧
    (∀ k c requests, i.callAt? handler r k = some c →
      (c.session.afterRequests requests).isReleased = false →
      ∃ mk, i.opcodes.plainAt? m k = some mk ∧ (c.session.afterRequests requests).Shows mk) ∧
    (∀ n, i.run handler n r = none → i.opcodes.plainLoop n m = none) ∧
    (∀ n r', i.run handler n r = some (.completed, r') →
      i.opcodes.plainLoop n m = some (.ok (), r'.frame.machine)) ∧
    (∀ n r' fault, i.run handler n r = some (.failed (.machine fault), r') →
      i.opcodes.plainLoop n m = some (.error fault, r'.frame.machine)) := by
  refine ⟨?_, ?_, ?_, ?_, ?_⟩
  · intro k f rk hf
    exact plainDispatchAt?_of_dispatchAt? hf
  · intro k c requests hc hs
    exact shows_plainAt? hc hs
  · -- The run comes to its instruction number `n`, and so does the plain loop.
    intro n hn
    obtain ⟨rn, hrn⟩ := (run_eq_none_iff h).mp hn
    exact OpcodeTable.plainLoop_add (plainAt?_of_stateAt? hrn) 0
  · intro n r' hn
    obtain ⟨k, hkn, rk, rk', hk, hend, rfl⟩ := (run_eq_some_iff h).mp hn
    have hstep : i.opcodes.plainStep rk.frame.machine = (.ok .halt, rk'.frame.machine) :=
      plainStep_of_step hend rfl
    exact OpcodeTable.plainLoop_of_halt (plainAt?_of_stateAt? hk) hkn hstep
  · intro n r' fault hn
    obtain ⟨k, hkn, rk, rk', hk, hend, rfl⟩ := (run_eq_some_iff h).mp hn
    have hstep : i.opcodes.plainStep rk.frame.machine = (.error fault, rk'.frame.machine) :=
      plainStep_of_step hend rfl
    exact OpcodeTable.plainLoop_of_fault (plainAt?_of_stateAt? hk) hkn hstep

/-- The run pauses before the addition, and comes to the sum as the plain loop does. -/
theorem run_transparent_sum :
    sumRun.frame.precompile? = none ∧
    (∃ f rk, dispatchAt? {} Handler.continueAlways sumRun 2 = some (f, rk) ∧
      OpcodeTable.reference.plainDispatchAt? sumRun.frame.machine 2 =
        some (f.position, f.opcode, rk.frame.machine)) ∧
    (∃ c, callAt? {} Handler.continueAlways sumRun 2 = some c ∧
      ∃ m, OpcodeTable.reference.plainAt? sumRun.frame.machine 2 = some m ∧ c.session.Shows m) ∧
    OpcodeTable.reference.plainLoop 3 sumRun.frame.machine = none ∧
    ∃ m, OpcodeTable.reference.plainLoop 4 sumRun.frame.machine = some (.ok (), m) ∧
      m.stack.words = [3] := by
  obtain ⟨hdispatch, hshows, hnone, hdone, -⟩ :=
    run_transparent {} Handler.continueAlways sumRun rfl
  exact ⟨rfl, ⟨_, _, rfl, hdispatch 2 _ _ rfl⟩, ⟨_, rfl, hshows 2 _ [] rfl rfl⟩, hnone 3 rfl,
    ⟨_, hdone 4 _ rfl, rfl⟩⟩

end Interpreter

end BytecodeDebugger
