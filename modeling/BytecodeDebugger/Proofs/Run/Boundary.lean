import BytecodeDebugger.Proofs.Instruction.Cursor
import BytecodeDebugger.Proofs.Instruction.Listing
import BytecodeDebugger.Proofs.Run.Plain

/-!
# Runs and listings

A run with the usual table that is on a boundary of its code stays on boundaries
(`OpcodeTable.onBoundary_of_plainStep`): an instruction leads to the position behind its immediate
or to a jump target, and both are boundaries.  Since a jump target is a boundary wherever the jump
came from, a run that is not on a boundary gets to one with its first jump.

`Interpreter.fetched_on_listing` puts this in terms of the listing of the code, and says that the
oracle is asked about the position of the entry and that the instruction that pushes its own
position pushes that one.  A session has the position that the oracle answered with, which need not
be the one that it was asked about (`Interpreter.not_session_at_fetched`).
-/

namespace BytecodeDebugger

/-! ### One instruction -/

namespace OpcodeTable

variable {m m' : Machine}

/-- An instruction that the plain loop goes on after stands inside the code. -/
theorem plainStep_proceed (h : reference.plainStep m = (.ok .proceed, m')) :
    ∃ opcode x, m.code.bytes[m.position]? = some opcode ∧ Instruction.ofOpcode? opcode = some x ∧
      x.execute.run { m with code := m.code.seek (m.position + 1) } = (.ok .proceed, m') := by
  cases hbyte : m.code.bytes[m.position]? with
  | none =>
    rw [plainStep_of_none hbyte] at h
    cases h
  | some opcode =>
    rw [plainStep_of_some hbyte, reference, behaviour_assign] at h
    refine ⟨opcode, ?_⟩
    cases hx : Instruction.ofOpcode? opcode with
    | none =>
      rw [hx] at h
      cases h
    | some x =>
      rw [hx] at h
      exact ⟨x, rfl, rfl, h⟩

/-- The bytes of the code are the same after an instruction, whatever comes of it. -/
theorem bytes_plainStep (instruction? : UInt8 → Option Instruction) (m : Machine) :
    ((assign instruction?).plainStep m).2.code.bytes = m.code.bytes := by
  have hkeeps : ((assign instruction?).behaviour m.fetch.1).Keeps fun m => m.code.bytes := by
    rw [behaviour_assign]
    cases instruction? m.fetch.1 with
    | none => exact Action.keeps_throw _
    | some x => exact x.keeps_bytes
  exact (hkeeps m.fetch.2).trans m.code.next_bytes

/-- The instruction at the cursor is a jump that is taken. -/
def Jumps (m : Machine) : Prop :=
  ∃ x, Instruction.ofOpcode? m.fetch.1 = some x ∧ (x.target? m.stack.words).isSome

/-- **An instruction leads from boundary to boundary**, and a jump leads to one from anywhere. -/
theorem onBoundary_of_plainStep (h : reference.plainStep m = (.ok .proceed, m'))
    (hsize : m.code.size ≤ maxPosition)
    (hm : Code.OnBoundary m.code.bytes m.position ∨ Jumps m) :
    Code.OnBoundary m.code.bytes m'.position := by
  obtain ⟨opcode, x, hbyte, hx, hrun⟩ := plainStep_proceed h
  have hcode := Instruction.code_of_execute hrun
  cases htarget : x.target? m.stack.words with
  | some target =>
    rw [htarget] at hcode
    obtain ⟨hjump, hcode⟩ := hcode
    have hstarts : Code.Starts m.code.bytes target := ((Code.isJumpTarget_iff _ target).mp hjump).2
    rw [Machine.position, hcode]
    exact Or.inr hstarts
  | none =>
    rw [htarget] at hcode
    have hstarts : Code.Starts m.code.bytes m.position := by
      rcases hm with (hend | hstarts) | ⟨x', hx', hjumps⟩
      · -- There is an opcode at the cursor, so that it is not beyond the end.
        have hlt : m.position < m.code.bytes.size := (getElem?_eq_some_iff.mp hbyte).1
        omega
      · exact hstarts
      · -- The instruction is the one that was carried out, and that one did not jump.
        rw [Machine.fetch_of_some hbyte] at hx'
        obtain rfl := Option.some.inj (hx.symm.trans hx')
        rw [htarget] at hjumps
        cases hjumps
    have himmediate : Opcode.immediateSize (Bytes.byteAt m.code.bytes m.position) =
        x.immediateSize := by
      rw [Bytes.byteAt_of_getElem? hbyte]
      exact Instruction.immediateSize_of_ofOpcode? hx
    rw [Machine.position, hcode]
    by_cases hzero : x.immediateSize = 0
    · rw [if_pos hzero]
      have hstride : Code.stride m.code.bytes m.position = m.position + 1 := by
        rw [Code.stride, himmediate, hzero]
      exact Or.inr (hstride ▸ hstarts.stride)
    · rw [if_neg hzero]
      exact hstarts.onBoundary_advance hsize himmediate

/-- The position that is pushed is the one that the instruction was fetched from. -/
theorem stack_of_plainStep_pc (h : reference.plainStep m = (.ok .proceed, m'))
    (hpc : Instruction.ofOpcode? m.fetch.1 = some .pc) :
    m.position < m.code.size ∧ m'.stack.words = UInt64.ofNat m.position :: m.stack.words := by
  obtain ⟨opcode, x, hbyte, hx, hrun⟩ := plainStep_proceed h
  rw [Machine.fetch_of_some hbyte] at hpc
  obtain rfl := Option.some.inj (hx.symm.trans hpc)
  exact ⟨(getElem?_eq_some_iff.mp hbyte).1, Instruction.stack_of_pc hrun⟩

end OpcodeTable

/-! ### A whole run -/

namespace Interpreter

variable {ω σ : Type} [BreakpointOracle ω] {i : Interpreter} {handler : Handler σ} {r r' : Run ω σ}

/-- A jump was taken with one of the first `k` instructions. -/
def JumpedBefore (i : Interpreter) (handler : Handler σ) (r : Run ω σ) (k : Nat) : Prop :=
  ∃ j < k, ∃ rj x, i.stateAt? handler r j = some rj ∧
    Instruction.ofOpcode? (i.fetch rj).1.opcode = some x ∧
    (x.target? rj.frame.machine.stack.words).isSome

theorem jumps_of_jumpedBefore_succ {k : Nat} {rk : Run ω σ}
    (hk : i.stateAt? handler r k = some rk) (h : i.JumpedBefore handler r (k + 1)) :
    i.JumpedBefore handler r k ∨ OpcodeTable.Jumps rk.frame.machine := by
  obtain ⟨j, hj, rj, x, hrj, hx, htarget⟩ := h
  rcases Nat.lt_succ_iff_lt_or_eq.mp hj with hlt | rfl
  · exact Or.inl ⟨j, hlt, rj, x, hrj, hx, htarget⟩
  · obtain rfl := Option.some.inj (hk.symm.trans hrj)
    exact Or.inr ⟨x, hx, htarget⟩

theorem bytes_of_stateAt? {instruction? : UInt8 → Option Instruction}
    (hi : i.opcodes = .assign instruction?) {k : Nat} {rk : Run ω σ}
    (hk : i.stateAt? handler r k = some rk) :
    rk.frame.machine.code.bytes = r.frame.machine.code.bytes := by
  refine stateAt?_induction
    (P := fun _ rk => rk.frame.machine.code.bytes = r.frame.machine.code.bytes) hk rfl ?_
  intro j rj rj' _ hbytes hstep
  have hkeeps := OpcodeTable.bytes_plainStep instruction? rj.frame.machine
  rw [← hi, step_machine_of_proceed hstep] at hkeeps
  exact hkeeps.trans hbytes

/-- **Runs stay on boundaries** once they are on one, by their start or by a jump. -/
theorem onBoundary_of_stateAt? (hi : i.opcodes = .reference)
    (hsize : r.frame.machine.code.size ≤ maxPosition) {k : Nat} {rk : Run ω σ}
    (hk : i.stateAt? handler r k = some rk)
    (hstart : Code.OnBoundary r.frame.machine.code.bytes r.frame.machine.position ∨
      i.JumpedBefore handler r k) :
    Code.OnBoundary r.frame.machine.code.bytes rk.frame.machine.position := by
  revert hstart
  refine stateAt?_induction
    (P := fun k rk => Code.OnBoundary r.frame.machine.code.bytes r.frame.machine.position ∨
      i.JumpedBefore handler r k →
        Code.OnBoundary r.frame.machine.code.bytes rk.frame.machine.position) hk ?_ ?_
  · intro hstart
    rcases hstart with hstart | ⟨j, hj, -⟩
    · exact hstart
    · exact absurd hj (Nat.not_lt_zero j)
  · intro j rj rj' hj ih hstep hstart
    -- The step lemma speaks of the bytes at its own instruction, which are those of the start.
    have hbytes := bytes_of_stateAt? hi hj
    have hplain := step_machine_of_proceed hstep
    have hsize' : rj.frame.machine.code.size ≤ maxPosition := by
      rw [Code.size, hbytes]
      exact hsize
    rw [hi] at hplain
    rw [← hbytes]
    refine OpcodeTable.onBoundary_of_plainStep hplain hsize' ?_
    rw [hbytes]
    rcases hstart with hstart | hjumped
    · exact Or.inl (ih (Or.inl hstart))
    · exact (jumps_of_jumpedBefore_succ hj hjumped).imp_left fun h => ih (Or.inr h)

/-- What is fetched on a boundary is an entry of the listing, or the end of the code. -/
theorem listed_of_onBoundary (hi : i.opcodes = .reference)
    (h : Code.OnBoundary r.frame.machine.code.bytes r.frame.machine.position) :
    r.frame.machine.code.size ≤ (i.fetch r).1.position ∧ (i.fetch r).1.opcode = Opcode.stop ∧
        (i.fetch r).1.entry = some Instruction.stop.entry ∨
      ∃ entry ∈ OpcodeTable.reference.disassemble r.frame.machine.code.bytes,
        entry.position = (i.fetch r).1.position ∧ entry.opcode = (i.fetch r).1.opcode := by
  change r.frame.machine.code.size ≤ r.frame.machine.position ∧
      r.frame.machine.code.next.1 = Opcode.stop ∧
      i.opcodes.get? r.frame.machine.code.next.1 = some Instruction.stop.entry ∨
    ∃ entry ∈ OpcodeTable.reference.disassemble r.frame.machine.code.bytes,
      entry.position = r.frame.machine.position ∧ entry.opcode = r.frame.machine.code.next.1
  rw [OpcodeTable.exists_mem_disassemble_iff, hi]
  cases hbyte : r.frame.machine.code.bytes[r.frame.machine.position]? with
  | none =>
    have hend : r.frame.machine.code.size ≤ r.frame.machine.position :=
      Nat.le_of_not_lt ((getElem?_eq_none_iff r.frame.machine.code.bytes _).mp hbyte)
    rw [Code.next_of_none hbyte]
    exact Or.inl ⟨hend, rfl, rfl⟩
  | some opcode =>
    have hlt : r.frame.machine.position < r.frame.machine.code.bytes.size :=
      (getElem?_eq_some_iff.mp hbyte).1
    rw [Code.next_of_some hbyte]
    exact Or.inr ⟨rfl, h.resolve_left (Nat.not_le.mpr hlt)⟩

/-- What is fetched after a start or a jump to a boundary is an entry of the listing, or the end of
the code. -/
theorem listed_of_stateAt? (hi : i.opcodes = .reference)
    (hsize : r.frame.machine.code.size ≤ maxPosition) {k : Nat} {rk : Run ω σ}
    (hk : i.stateAt? handler r k = some rk)
    (hstart : r.frame.machine.position = 0 ∨
      (∃ entry ∈ OpcodeTable.reference.disassemble r.frame.machine.code.bytes,
        entry.position = r.frame.machine.position) ∨
      r.frame.machine.code.size ≤ r.frame.machine.position ∨ i.JumpedBefore handler r k) :
    r.frame.machine.code.size ≤ (i.fetch rk).1.position ∧ (i.fetch rk).1.opcode = Opcode.stop ∧
        (i.fetch rk).1.entry = some Instruction.stop.entry ∨
      ∃ entry ∈ OpcodeTable.reference.disassemble r.frame.machine.code.bytes,
        entry.position = (i.fetch rk).1.position ∧ entry.opcode = (i.fetch rk).1.opcode := by
  have hbytes := bytes_of_stateAt? hi hk
  -- Each of the three ways to start is a boundary.
  have hboundary : Code.OnBoundary r.frame.machine.code.bytes rk.frame.machine.position := by
    apply onBoundary_of_stateAt? hi hsize hk
    rcases hstart with hzero | ⟨entry, hentry, hposition⟩ | hend | hjumped
    · left
      right
      rw [hzero]
      exact Code.starts_zero _
    · left
      right
      exact ((OpcodeTable.exists_mem_disassemble_iff _ _ _ _).mp
        ⟨entry, hentry, hposition, rfl⟩).2
    · exact Or.inl (Or.inl hend)
    · exact Or.inr hjumped
  rw [← hbytes] at hboundary
  have hlisted := listed_of_onBoundary hi hboundary
  rwa [Code.size, hbytes] at hlisted

/-- A session has the position that the oracle answered with. -/
theorem position_of_callAt? {k : Nat} {f : Fetched} {c : HandlerCall σ}
    (hf : i.fetchedAt? handler r k = some f) (hc : i.callAt? handler r k = some c) :
    c.session.position = f.hit.position := by
  obtain ⟨rk, hk, rfl⟩ := Option.map_eq_some_iff.mp hf
  rw [callAt?_of_stateAt? hk] at hc
  obtain ⟨reason, -, rfl⟩ := nextCall?_eq_some_iff.mp hc
  rfl

/-- The instruction that pushes its own position pushes the one that it was fetched from. -/
theorem pushes_position (hi : i.opcodes = .reference)
    (hsize : r.frame.machine.code.size ≤ maxPosition) {k : Nat} {rk rk' : Run ω σ}
    (hk : i.stateAt? handler r k = some rk) (hk' : i.stateAt? handler r (k + 1) = some rk')
    (hpc : Instruction.ofOpcode? (i.fetch rk).1.opcode = some .pc) :
    ∃ word, word.toNat = (i.fetch rk).1.position ∧
      rk'.frame.machine.stack.words = word :: rk.frame.machine.stack.words := by
  obtain ⟨rk₁, hk₁, hstep⟩ := stateAt?_succ_eq_some_iff.mp hk'
  obtain rfl := Option.some.inj (hk.symm.trans hk₁)
  have hplain := step_machine_of_proceed hstep
  rw [hi] at hplain
  obtain ⟨hlt, hwords⟩ := OpcodeTable.stack_of_plainStep_pc hplain hpc
  refine ⟨UInt64.ofNat rk.frame.machine.position, ?_, hwords⟩
  -- The position lies inside the code, and so the word that is made of it is no other.
  rw [Code.size, bytes_of_stateAt? hi hk] at hlt
  have hmax : rk.frame.machine.position < 2 ^ 64 := by
    have hpositions : maxPosition < 2 ^ 64 := by decide
    rw [Code.size] at hsize
    omega
  exact UInt64.toNat_ofNat_of_lt' hmax

/-- **Runs follow the listing.**  With the usual table, a run that starts at an entry of the listing
or beyond the end, or has taken a jump, fetches nothing but entries of the listing and the end of
the code.  The oracle is asked about the position of the entry, and an instruction that pushes its
own position pushes that one.  (The size of a code is a position.)

The session has the position that the oracle answers with.  With breakpoints on lines this is the
one that it was asked about, in every run. -/
theorem fetched_on_listing {ω σ : Type} [BreakpointOracle ω] (i : Interpreter)
    (hi : i.opcodes = .reference) (handler : Handler σ) :
    (∀ (r : Run ω σ) k rk f, r.frame.machine.code.size ≤ maxPosition →
      i.stateAt? handler r k = some rk → i.fetchedAt? handler r k = some f →
      (r.frame.machine.position = 0 ∨
        (∃ entry ∈ OpcodeTable.reference.disassemble r.frame.machine.code.bytes,
          entry.position = r.frame.machine.position) ∨
        r.frame.machine.code.size ≤ r.frame.machine.position ∨ i.JumpedBefore handler r k) →
      (r.frame.machine.code.size ≤ f.position ∧ f.opcode = Opcode.stop ∧
          f.entry = some Instruction.stop.entry ∨
        ∃ entry ∈ OpcodeTable.reference.disassemble r.frame.machine.code.bytes,
          entry.position = f.position ∧ entry.opcode = f.opcode) ∧
      f.hit = BreakpointOracle.check rk.oracle f.position ∧
      (∀ c, i.callAt? handler r k = some c → c.session.position = f.hit.position) ∧
      (Instruction.ofOpcode? f.opcode = some .pc →
        ∀ rk', i.stateAt? handler r (k + 1) = some rk' →
          ∃ word, word.toNat = f.position ∧
            rk'.frame.machine.stack.words = word :: rk.frame.machine.stack.words)) ∧
    ∀ (r : Run LineBreakpoints σ) k f c, i.fetchedAt? handler r k = some f →
      i.callAt? handler r k = some c → c.session.position = f.position := by
  refine ⟨?_, ?_⟩
  · intro r k rk f hsize hk hf hstart
    obtain ⟨rk₀, hk₀, rfl⟩ := Option.map_eq_some_iff.mp hf
    obtain rfl := Option.some.inj (hk.symm.trans hk₀)
    exact ⟨listed_of_stateAt? hi hsize hk hstart, rfl, fun c hc => position_of_callAt? hf hc,
      fun hpc rk' hk' => pushes_position hi hsize hk hk' hpc⟩
  · intro r k f c hf hc
    rw [position_of_callAt? hf hc]
    obtain ⟨rk, -, rfl⟩ := Option.map_eq_some_iff.mp hf
    rfl

/-- The start of a run inside an immediate.  From there it reads a push and a jump, and the jump
goes to the target before the instruction that pushes its own position. -/
def detourRun : Run LineBreakpoints Nat where
  frame := {
    machine := { code := { bytes := ⟨#[0x60, 0x60, 5, 0x56, 0, 0x5b, 0x58, 0]⟩, cursor := 1 } } }
  oracle := { map := LineMap.ofLists [(6, 10)] [10] }
  handler := 0

/-- The run is back on the listing after its jump, and pushes the position of the entry there. -/
theorem fetched_on_listing_detour :
    ∃ f c rk, fetchedAt? {} Handler.continueAlways detourRun 3 = some f ∧
      callAt? {} Handler.continueAlways detourRun 3 = some c ∧
      stateAt? {} Handler.continueAlways detourRun 4 = some rk ∧
      (∃ entry ∈ OpcodeTable.reference.disassemble detourRun.frame.machine.code.bytes,
        entry.position = f.position ∧ entry.opcode = f.opcode) ∧
      f.position = 6 ∧ c.session.position = 6 ∧
      ∃ word, word.toNat = 6 ∧ rk.frame.machine.stack.words = [word] := by
  have hjumped : JumpedBefore {} Handler.continueAlways detourRun 3 :=
    ⟨1, by decide, _, .jump, rfl, rfl, rfl⟩
  have hk : stateAt? {} Handler.continueAlways detourRun 3 = some _ := rfl
  have hf : fetchedAt? {} Handler.continueAlways detourRun 3 = some _ := rfl
  have hc : callAt? {} Handler.continueAlways detourRun 3 = some _ := rfl
  have hk' : stateAt? {} Handler.continueAlways detourRun 4 = some _ := rfl
  obtain ⟨hlisting, hsession⟩ :=
    fetched_on_listing (ω := LineBreakpoints) {} rfl Handler.continueAlways
  obtain ⟨hlisted, -, -, hpushed⟩ :=
    hlisting detourRun 3 _ _ (by decide) hk hf (Or.inr (Or.inr (Or.inr hjumped)))
  refine ⟨_, _, _, hf, hc, hk', hlisted.resolve_left ?_, rfl, hsession detourRun 3 _ _ hf hc,
    hpushed rfl _ hk'⟩
  rintro ⟨hend, -⟩
  exact absurd hend (by decide)

/-- An oracle that finds a breakpoint wherever it is asked, and answers for the position behind. -/
structure NextPosition where
  map : LineMap := {}

instance : BreakpointOracle NextPosition where
  check _ position := { position := position + 1, line := none, isBreakpoint := true }
  lineMap oracle := oracle.map
  withLineMap oracle map := { oracle with map }

/-- The run of `sumFrame` with that oracle. -/
def sumRunAhead : Run NextPosition Nat :=
  { frame := sumFrame, oracle := {}, handler := 0 }

/-- The first instruction is fetched from the start of the code, and the session of the pause before
it is at the position behind. -/
theorem not_session_at_fetched :
    ∃ f c, sumRunAhead.frame.machine.position = 0 ∧
      fetchedAt? {} Handler.continueAlways sumRunAhead 0 = some f ∧
      callAt? {} Handler.continueAlways sumRunAhead 0 = some c ∧
      f.position = 0 ∧ c.session.position = 1 :=
  ⟨_, _, rfl, rfl, rfl, rfl, rfl⟩

end Interpreter

end BytecodeDebugger
