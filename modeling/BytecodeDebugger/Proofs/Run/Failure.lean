import BytecodeDebugger.Proofs.Run.ReturnData

/-!
# What a failing instruction leaves behind

An instruction that fails has done a part of its work, and the way it fails tells which.  It takes
all its operands at once, so on a stack that is too shallow it has done nothing.  After that it may
be refused a range of memory or a jump, and then the operands are gone and nothing else has changed.
A result finds room where the operands have been.  So only an instruction that takes none can find
the stack full, and of these only a push has moved the cursor by then.

`Instruction.Leaves` says this for each way to fail, and `OpcodeTable.plainStep_leaves` that it is
so for each instruction on each machine.
-/

namespace BytecodeDebugger

/-- An access that fails leaves the machine as it was. -/
theorem Action.run_onMemory_eq_error {m m' : Machine} {fault : Fault} {offset size : Nat}
    (operation : Memory.Operation) (hrange : operation.range? = some (offset, size))
    (h : (onMemory (·.perform operation)).run m = (.error fault, m')) :
    fault = .memoryLimit offset size ∧ 0 < size ∧ Memory.limit < offset + size ∧ m' = m := by
  rw [run_onMemory] at h
  obtain ⟨hfault, rfl⟩ := Prod.mk.inj h
  obtain ⟨rfl, hsize, hlimit, hmemory⟩ := Memory.perform_eq_error operation hrange hfault
  rw [hmemory]
  exact ⟨rfl, hsize, hlimit, rfl⟩

namespace Instruction

variable {x : Instruction} {m m₁ m₂ m' : Machine} {fault : Fault} {top second : Word}

/-! ### Operands -/

/-- The number of words that an instruction takes off the stack. -/
def operandCount : Instruction → Nat
  | binary _ | mstore | jumpi | ret | revert => 2
  | isZero | pop | mload | jump => 1
  | _ => 0

/-- The number of words that an instruction needs on the stack. -/
def neededDepth : Instruction → Nat
  | dup index => index.val + 1
  | swap index => index.val + 2
  | x => x.operandCount

/-- An instruction has taken its operands off the stack, the topmost of which is `top`, and has done
nothing else. -/
def Takes (x : Instruction) (m : Machine) (top : Word) (m' : Machine) : Prop :=
  ∃ below rest : List Word, m.stack.words = top :: below ++ rest ∧
    (top :: below).length = x.operandCount ∧ m' = { m with stack := ⟨rest⟩ }

theorem operandCount_le_two (x : Instruction) : x.operandCount ≤ 2 := by
  unfold operandCount
  split <;> omega

theorem takes_of_pop (hx : x.operandCount = 1) (h : Action.pop.run m = (.ok top, m')) :
    x.Takes m top m' := by
  obtain ⟨rest, hwords, rfl⟩ := Action.run_pop_eq_ok_iff.mp h
  exact ⟨[], rest, hwords, hx.symm, rfl⟩

theorem takes_of_popPair (hx : x.operandCount = 2)
    (h : Action.popPair.run m = (.ok (top, second), m')) : x.Takes m top m' := by
  obtain ⟨rest, hwords, rfl⟩ := Action.run_popPair_eq_ok_iff.mp h
  exact ⟨[second], rest, hwords, hx.symm, rfl⟩

/-- An instruction that has taken operands has made room for a result. -/
theorem Takes.depth_lt (h : x.Takes m top m') (hdepth : m.stack.depth ≤ Stack.limit) :
    m'.stack.depth < Stack.limit := by
  obtain ⟨below, rest, hwords, -, rfl⟩ := h
  have hlength := congrArg List.length hwords
  rw [List.length_append, List.length_cons] at hlength
  rw [Stack.depth] at hdepth
  show rest.length < Stack.limit
  omega

/-- So the result is put on the stack, whatever has been done to the memory. -/
theorem Takes.push_ne_error {word : Word} (htaken : x.Takes m top m₁)
    (hdepth : m.stack.depth ≤ Stack.limit) (hstack : m₂.stack = m₁.stack) :
    (do Action.push word; return .proceed : Action Flow).run m₂ ≠ (.error fault, m') := by
  intro h
  have hlt := htaken.depth_lt hdepth
  rcases Action.run_bind_eq_error_iff.mp h with hpush | ⟨_, m₃, -, hdone⟩
  · have hfull := (Action.run_push_eq_error_iff.mp hpush).1
    rw [hstack] at hfull
    omega
  · cases hdone

/-- The range that is handed back has been touched before, so there may be zeros at the end of the
memory that have not been there. -/
theorem takes_of_handBack {data : ByteArray} (hx : x.operandCount = 2)
    (h : handBack.run m = (.ok data, m')) : ∃ top taken count, x.Takes m top taken ∧
      m' = { taken with memory := ⟨m.memory.bytes ++ Bytes.zeros count⟩, returnData := data } := by
  rw [run_handBack] at h
  rcases hwords : m.stack.words with _ | ⟨offset, _ | ⟨size, rest⟩⟩
  · rw [hwords] at h
    cases h
  · rw [hwords] at h
    cases h
  · rw [hwords] at h
    by_cases haccess : Memory.Accessible offset.toNat size.toNat
    · simp only [if_pos haccess] at h
      obtain ⟨hdata, rfl⟩ := Prod.mk.inj h
      obtain rfl := Except.ok.inj hdata
      obtain ⟨count, htouch⟩ := m.memory.exists_touch_eq offset.toNat size.toNat
      refine ⟨offset, _, count, ⟨[size], rest, hwords, hx.symm, rfl⟩, ?_⟩
      rw [htouch]
    · simp only [if_neg haccess] at h
      cases h

/-! ### Ways to fail -/

/-- What an instruction that fails on a machine leaves behind, by the way it fails. -/
def Leaves (x : Instruction) (m : Machine) (fault : Fault) (m' : Machine) : Prop :=
  match fault with
  | .stackUnderflow needed available =>
    m' = m ∧ available = m.stack.depth ∧ needed = x.neededDepth ∧ available < needed
  | .stackOverflow limit =>
    limit = Stack.limit ∧ m.stack.depth = Stack.limit ∧
      m' = { m with code := m.code.seek (m.position + x.immediateSize) }
  | .invalidInstruction opcode => x = .invalid ∧ opcode = Opcode.invalid ∧ m' = m
  | .invalidJump destination => x.operandCount ≤ 2 ∧ x.Takes m destination m'
  | .memoryLimit offset size =>
    x.operandCount ≤ 2 ∧ 0 < size ∧ Memory.limit < offset + size ∧
      ∃ top : Word, top.toNat = offset ∧ x.Takes m top m'
  | .reverted data =>
    x.operandCount = 2 ∧ ∃ top taken count, x.Takes m top taken ∧
      m' = { taken with memory := ⟨m.memory.bytes ++ Bytes.zeros count⟩, returnData := data }
  -- No instruction fails in these ways.
  | .precompile _ | .outOfRange => False

theorem leaves_of_pop (hx : x.neededDepth = 1) (h : Action.pop.run m = (.error fault, m')) :
    x.Leaves m fault m' := by
  obtain ⟨hlt, rfl, rfl⟩ := Action.run_pop_eq_error_iff.mp h
  exact ⟨rfl, rfl, hx.symm, hlt⟩

theorem leaves_of_popPair (hx : x.neededDepth = 2)
    (h : Action.popPair.run m = (.error fault, m')) : x.Leaves m fault m' := by
  obtain ⟨hlt, rfl, rfl⟩ := Action.run_popPair_eq_error_iff.mp h
  exact ⟨rfl, rfl, hx.symm, hlt⟩

theorem leaves_of_onMemory (operation : Memory.Operation) {size : Nat}
    (hrange : operation.range? = some (top.toNat, size)) (htaken : x.Takes m top m₁)
    (h : (Action.onMemory (·.perform operation)).run m₁ = (.error fault, m')) :
    x.Leaves m fault m' := by
  obtain ⟨rfl, hsize, hlimit, rfl⟩ := Action.run_onMemory_eq_error operation hrange h
  exact ⟨x.operandCount_le_two, hsize, hlimit, top, rfl, htaken⟩

theorem leaves_of_jumpTo (htaken : x.Takes m top m₁)
    (h : (do jumpTo top; return .proceed : Action Flow).run m₁ = (.error fault, m')) :
    x.Leaves m fault m' := by
  rcases Action.run_bind_eq_error_iff.mp h with hjump | ⟨_, m₂, -, hdone⟩
  · obtain ⟨-, rfl, rfl⟩ := run_jumpTo_eq_error_iff.mp hjump
    exact ⟨x.operandCount_le_two, htaken⟩
  · cases hdone

theorem leaves_of_handBack (hx : x.operandCount = 2) (hneeded : x.neededDepth = 2)
    (h : handBack.run m = (.error fault, m')) : x.Leaves m fault m' := by
  rcases Action.run_bind_eq_error_iff.mp h with hpop | ⟨⟨offset, size⟩, m₁, hpop, hrest⟩
  · exact leaves_of_popPair hneeded hpop
  · have htaken : x.Takes m offset m₁ := takes_of_popPair hx hpop
    rcases Action.run_bind_eq_error_iff.mp hrest with hread | ⟨data, m₂, -, hdone⟩
    · exact leaves_of_onMemory (.read offset.toNat size.toNat) rfl htaken hread
    · cases hdone

theorem leaves_of_push {index : Fin 8} (hdepth : m.stack.depth ≤ Stack.limit)
    (hcode : m.code.size ≤ maxPosition) (hposition : m.position + (index.val + 1) ≤ maxPosition)
    (h : (push index).execute.run m = (.error fault, m')) : (push index).Leaves m fault m' := by
  rw [run_push hcode, advance_of_le hposition] at h
  split_ifs at h with hroom
  · cases h
  · obtain ⟨hfault, rfl⟩ := Prod.mk.inj h
    obtain rfl := Except.error.inj hfault
    exact ⟨rfl, Nat.le_antisymm hdepth (Nat.le_of_not_lt hroom), rfl⟩

/-- **What an instruction leaves behind when it fails**, wherever there are positions enough for its
immediate. -/
theorem leaves_of_error (hdepth : m.stack.depth ≤ Stack.limit) (hcode : m.code.size ≤ maxPosition)
    (hposition : m.position + x.immediateSize ≤ maxPosition)
    (h : x.execute.run m = (.error fault, m')) : x.Leaves m fault m' := by
  cases x with
  | stop => cases h
  | jumpDest => cases h
  | invalid =>
    obtain ⟨hfault, rfl⟩ := Prod.mk.inj h
    obtain rfl := Except.error.inj hfault
    exact ⟨rfl, rfl, rfl⟩
  | binary op =>
    rcases Action.run_bind_eq_error_iff.mp h with hpop | ⟨operands, m₁, hpop, hpush⟩
    · exact leaves_of_popPair rfl hpop
    · have htaken : (binary op).Takes m operands.1 m₁ := takes_of_popPair rfl hpop
      exact absurd hpush (htaken.push_ne_error hdepth rfl)
  | isZero =>
    rcases Action.run_bind_eq_error_iff.mp h with hpop | ⟨top, m₁, hpop, hpush⟩
    · exact leaves_of_pop rfl hpop
    · have htaken : isZero.Takes m top m₁ := takes_of_pop rfl hpop
      exact absurd hpush (htaken.push_ne_error hdepth rfl)
  | pop =>
    rcases Action.run_bind_eq_error_iff.mp h with hpop | ⟨top, m₁, -, hdone⟩
    · exact leaves_of_pop rfl hpop
    · cases hdone
  | mload =>
    rcases Action.run_bind_eq_error_iff.mp h with hpop | ⟨offset, m₁, hpop, hrest⟩
    · exact leaves_of_pop rfl hpop
    · have htaken : mload.Takes m offset m₁ := takes_of_pop rfl hpop
      rcases Action.run_bind_eq_error_iff.mp hrest with hread | ⟨word, m₂, hread, hpush⟩
      · exact leaves_of_onMemory (.readWord offset.toNat) rfl htaken hread
      · obtain ⟨-, rfl⟩ := Prod.mk.inj hread
        exact absurd hpush (htaken.push_ne_error hdepth rfl)
  | mstore =>
    rcases Action.run_bind_eq_error_iff.mp h with hpop | ⟨⟨offset, word⟩, m₁, hpop, hrest⟩
    · exact leaves_of_popPair rfl hpop
    · have htaken : mstore.Takes m offset m₁ := takes_of_popPair rfl hpop
      rcases Action.run_bind_eq_error_iff.mp hrest with hwrite | ⟨_, m₂, -, hdone⟩
      · exact leaves_of_onMemory (.writeWord offset.toNat word) rfl htaken hwrite
      · cases hdone
  | jump =>
    rcases Action.run_bind_eq_error_iff.mp h with hpop | ⟨destination, m₁, hpop, hjump⟩
    · exact leaves_of_pop rfl hpop
    · exact leaves_of_jumpTo (takes_of_pop rfl hpop) hjump
  | jumpi =>
    rw [execute_jumpi] at h
    rcases Action.run_bind_eq_error_iff.mp h with hpop | ⟨⟨destination, condition⟩, m₁, hpop, hrest⟩
    · exact leaves_of_popPair rfl hpop
    · split_ifs at hrest
      · cases hrest
      · exact leaves_of_jumpTo (takes_of_popPair rfl hpop) hrest
  | pc =>
    rcases Action.run_bind_eq_error_iff.mp h with hget | ⟨m₀, m₁, hget, hrest⟩
    · cases hget
    · obtain ⟨-, rfl⟩ := Prod.mk.inj hget
      rcases Action.run_bind_eq_error_iff.mp hrest with hpush | ⟨_, m₂, -, hdone⟩
      · obtain ⟨hfull, rfl, rfl⟩ := Action.run_push_eq_error_iff.mp hpush
        exact ⟨rfl, Nat.le_antisymm hdepth hfull, rfl⟩
      · cases hdone
  | push index => exact leaves_of_push hdepth hcode hposition h
  | dup index =>
    rcases Action.run_bind_eq_error_iff.mp h with hdup | ⟨_, m₁, -, hdone⟩
    · obtain ⟨herror, rfl⟩ := Action.run_onStack_eq_error_iff.mp hdup
      rcases Stack.dup_eq_error_iff.mp (Except.map_eq_error herror) with
        ⟨hlt, rfl⟩ | ⟨-, hfull, rfl⟩
      · exact ⟨rfl, rfl, rfl, hlt⟩
      · exact ⟨rfl, Nat.le_antisymm hdepth hfull, rfl⟩
    · cases hdone
  | swap index =>
    rcases Action.run_bind_eq_error_iff.mp h with hswap | ⟨_, m₁, -, hdone⟩
    · obtain ⟨herror, rfl⟩ := Action.run_onStack_eq_error_iff.mp hswap
      obtain ⟨hlt, rfl⟩ := (Stack.swap_eq_error_iff (swapDepth_lt_maxPosition index)).mp
        (Except.map_eq_error herror)
      exact ⟨rfl, rfl, rfl, hlt⟩
    · cases hdone
  | ret =>
    rcases Action.run_bind_eq_error_iff.mp h with hback | ⟨data, m₁, -, hdone⟩
    · exact leaves_of_handBack rfl rfl hback
    · cases hdone
  | revert =>
    rcases Action.run_bind_eq_error_iff.mp h with hback | ⟨data, m₁, hback, hfail⟩
    · exact leaves_of_handBack rfl rfl hback
    · obtain ⟨hfault, rfl⟩ := Prod.mk.inj hfail
      obtain rfl := Except.error.inj hfault
      exact ⟨rfl, takes_of_handBack rfl hback⟩

end Instruction

namespace OpcodeTable

variable {m m' : Machine} {fault : Fault}

/-- **What a failing instruction leaves behind** is what belongs to the way it fails, for every
instruction that finds positions enough for its immediate.  There are enough after the fetch, so it
is so for every step; and a byte that is no instruction fails as such and changes nothing. -/
theorem plainStep_leaves (hdepth : m.stack.depth ≤ Stack.limit)
    (hcode : m.code.size ≤ Bytes.maxSize) :
    (∀ x : Instruction, m.position + x.immediateSize ≤ maxPosition →
      x.execute.run m = (.error fault, m') → x.Leaves m fault m') ∧
    (reference.plainStep m = (.error fault, m') →
      match Instruction.ofOpcode? m.fetch.1 with
      | some x => x.Leaves m.fetch.2 fault m'
      | none => fault = .invalidInstruction m.fetch.1 ∧ m' = m.fetch.2) := by
  have hmax : Bytes.maxSize + 9 ≤ maxPosition := by decide
  refine ⟨fun x hposition h => Instruction.leaves_of_error hdepth (by omega) hposition h,
    fun h => ?_⟩
  cases hbyte : m.code.bytes[m.position]? with
  | none =>
    rw [plainStep_of_none hbyte] at h
    cases h
  | some opcode =>
    rw [plainStep_of_some hbyte, reference, behaviour_assign] at h
    rw [Machine.fetch_of_some hbyte]
    cases hx : Instruction.ofOpcode? opcode with
    | none =>
      rw [hx] at h
      obtain ⟨hfault, rfl⟩ := Prod.mk.inj h
      exact ⟨(Except.error.inj hfault).symm, rfl⟩
    | some x =>
      rw [hx] at h
      have hlt : m.position < m.code.size := (getElem?_eq_some_iff.mp hbyte).1
      have himmediate := x.immediateSize_le
      have hposition : m.position + 1 + x.immediateSize ≤ maxPosition := by omega
      exact Instruction.leaves_of_error hdepth (show m.code.size ≤ maxPosition by omega)
        hposition h

/-- A machine at a store that is refused, since it starts right behind the memory. -/
def atStore : Machine where
  code := { bytes := ⟨#[0x52]⟩ }
  stack := ⟨[0x1000000, 7, 9]⟩
  memory := ⟨⟨#[1, 2]⟩⟩

/-- The offset and the word are gone, and the third word and the memory are still there. -/
theorem plainStep_leaves_atStore : ∃ m',
    reference.plainStep atStore = (.error (.memoryLimit 0x1000000 8), m') ∧
      m'.stack.words = [9] ∧ m'.memory = atStore.memory ∧ m'.position = 1 ∧
      Instruction.mstore.Leaves atStore.fetch.2 (.memoryLimit 0x1000000 8) m' ∧
      Instruction.mstore.Leaves { atStore with stack := {} } (.stackUnderflow 2 0)
        { atStore with stack := {} } := by
  have hstep : reference.plainStep atStore = (.error (.memoryLimit 0x1000000 8), _) := rfl
  refine ⟨_, hstep, rfl, rfl, rfl, ?_, ?_⟩
  · exact (plainStep_leaves (by decide) (by decide)).2 hstep
  · exact (plainStep_leaves (by decide) (by decide)).1 .mstore (by decide) rfl

end OpcodeTable

end BytecodeDebugger
