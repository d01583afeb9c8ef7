import BytecodeDebugger.Proofs.Instruction.Fault
import BytecodeDebugger.Proofs.Machine.Checked

/-!
# Instructions within the limits

A machine is within its limits if its stack and its memory are not too large, its code is not longer
than a byte string can be, and its cursor is a number of 64 bits (`Machine.WithinLimits`).

`Instruction.executeChecked` carries an instruction out with checked operations.  On a machine
within its limits this does the same as `Instruction.execute`, no computation of an index is out of
range, and the machine stays within its limits, whether or not the instruction succeeds
(`Instruction.checks_execute`).
-/

namespace BytecodeDebugger

/-- A machine as it can be. -/
structure Machine.WithinLimits (m : Machine) : Prop where
  depth_le : m.stack.depth ≤ Stack.limit
  memory_le : m.memory.size ≤ Memory.limit
  code_le : m.code.size ≤ Bytes.maxSize
  cursor_le : m.code.cursor ≤ maxPosition

namespace Action

variable {α β : Type}

/-- Within the limits `y` does what `x` does, which is never out of range and leads to a machine
within the limits. -/
structure Checks (x y : Action α) : Prop where
  run_eq : ∀ m, m.WithinLimits → y.run m = x.run m
  inRange : ∀ m, m.WithinLimits → (x.run m).1 ≠ .error .outOfRange
  withinLimits : ∀ m, m.WithinLimits → (x.run m).2.WithinLimits

theorem checks_pure (a : α) : (pure a : Action α).Checks (pure a) where
  run_eq _ _ := rfl
  inRange _ _ h := by cases h
  withinLimits _ hm := hm

theorem checks_throw {fault : Fault} (h : fault ≠ .outOfRange) :
    (throw fault : Action α).Checks (throw fault) where
  run_eq _ _ := rfl
  inRange _ _ herror := h (Except.error.inj herror)
  withinLimits _ hm := hm

theorem checks_get : (get : Action Machine).Checks get where
  run_eq _ _ := rfl
  inRange _ _ h := by cases h
  withinLimits _ hm := hm

theorem checks_setReturnData (data : ByteArray) :
    (setReturnData data).Checks (setReturnData data) where
  run_eq _ _ := rfl
  inRange _ _ h := by cases h
  withinLimits _ hm := ⟨hm.depth_le, hm.memory_le, hm.code_le, hm.cursor_le⟩

theorem Checks.bind {x y : Action α} {f g : α → Action β} (hx : x.Checks y)
    (hf : ∀ a, (f a).Checks (g a)) : (x >>= f).Checks (y >>= g) := by
  constructor
  · intro m hm
    have hm₁ := hx.withinLimits m hm
    rw [run_bind, run_bind, hx.run_eq m hm]
    rcases hxm : x.run m with ⟨fault | a, m₁⟩
    · rfl
    · rw [hxm] at hm₁
      exact (hf a).run_eq m₁ hm₁
  · intro m hm
    have hm₁ := hx.withinLimits m hm
    have hrange := hx.inRange m hm
    rw [run_bind]
    rcases hxm : x.run m with ⟨fault | a, m₁⟩
    · rw [hxm] at hrange
      exact fun h => hrange (congrArg Except.error (Except.error.inj h))
    · rw [hxm] at hm₁
      exact (hf a).inRange m₁ hm₁
  · intro m hm
    have hm₁ := hx.withinLimits m hm
    rw [run_bind]
    rcases hxm : x.run m with ⟨fault | a, m₁⟩
    · rwa [hxm] at hm₁
    · rw [hxm] at hm₁
      exact (hf a).withinLimits m₁ hm₁

theorem checks_onStack {f g : Stack → Except Fault (α × Stack)} (heq : ∀ s, g s = f s)
    (hrange : ∀ s, f s ≠ .error .outOfRange)
    (hdepth : ∀ s a s', s.depth ≤ Stack.limit → f s = .ok (a, s') → s'.depth ≤ Stack.limit) :
    (onStack f).Checks (onStack g) := by
  have hfg : g = f := funext heq
  subst hfg
  refine ⟨fun _ _ => rfl, fun m hm => ?_, fun m hm => ?_⟩
  · rw [run_onStack]
    have hm' := hrange m.stack
    rcases hf : g m.stack with fault | ⟨a, stack⟩
    · rw [hf] at hm'
      exact fun h => hm' (congrArg Except.error (Except.error.inj h))
    · exact fun h => by cases h
  · rw [run_onStack]
    rcases hf : g m.stack with fault | ⟨a, stack⟩
    · exact hm
    · exact ⟨hdepth m.stack a stack hm.depth_le hf, hm.memory_le, hm.code_le, hm.cursor_le⟩

theorem checks_onMemory {f g : Memory → Except Fault α × Memory} (heq : ∀ m, g m = f m)
    (hrange : ∀ m, (f m).1 ≠ .error .outOfRange)
    (hsize : ∀ m, m.size ≤ Memory.limit → (f m).2.size ≤ Memory.limit) :
    (onMemory f).Checks (onMemory g) := by
  have hfg : g = f := funext heq
  subst hfg
  exact ⟨fun _ _ => rfl, fun m _ => hrange m.memory, fun m hm =>
    ⟨hm.depth_le, hsize m.memory hm.memory_le, hm.code_le, hm.cursor_le⟩⟩

theorem checks_pop : pop.Checks pop := by
  refine checks_onStack (fun _ => rfl) (fun s h => ?_) fun s a s' hs h => ?_
  · cases Stack.pop_eq_error h
  · have hdepth := Stack.depth_of_pop h
    omega

theorem checks_popPair : popPair.Checks (onStack Checked.popPair) := by
  refine checks_onStack Checked.popPair_eq (fun s h => ?_) fun s a s' hs h => ?_
  · cases Stack.popPair_eq_error h
  · have hdepth := Stack.depth_of_popPair h
    omega

/-- An operation that returns nothing but the stack. -/
theorem checks_onStack_map {f g : Stack → Except Fault Stack} (heq : ∀ s, g s = f s)
    (hrange : ∀ s, f s ≠ .error .outOfRange)
    (hdepth : ∀ s s', s.depth ≤ Stack.limit → f s = .ok s' → s'.depth ≤ Stack.limit) :
    (onStack fun s => (f s).map ((), ·)).Checks (onStack fun s => (g s).map ((), ·)) := by
  refine checks_onStack (fun s => by rw [heq s]) (fun s h => ?_) fun s a s' hs h => ?_
  · exact hrange s (Except.map_eq_error h)
  · obtain ⟨stack, hstack, hs'⟩ := Except.map_eq_ok_iff.mp h
    obtain ⟨-, rfl⟩ := Prod.mk.inj hs'
    exact hdepth s stack hs hstack

theorem checks_push (word : Word) : (push word).Checks (push word) := by
  refine checks_onStack_map (fun _ => rfl) (fun s h => ?_) fun s s' hs h => ?_
  · cases Stack.push_eq_error h
  · have hdepth := Stack.depth_of_push h
    omega

theorem checks_dup (below : Nat) : (onStack fun s => (s.dup (below + 1)).map ((), ·)).Checks
    (onStack fun s => (Checked.dup s (below + 1)).map ((), ·)) := by
  refine checks_onStack_map (Checked.dup_eq · below) (fun s h => ?_) fun s s' hs h => ?_
  · rcases Stack.dup_eq_error h with h | h
    · cases h
    · cases h
  · have hdepth := Stack.depth_of_dup h
    omega

theorem checks_swap {below : Nat} (hbelow : below < maxPosition) :
    (onStack fun s => (s.swap below).map ((), ·)).Checks
      (onStack fun s => (Checked.swap s below).map ((), ·)) := by
  refine checks_onStack_map (fun _ => Checked.swap_eq hbelow) (fun s h => ?_) fun s s' hs h => ?_
  · cases Stack.swap_eq_error hbelow h
  · have hdepth := Stack.depth_of_swap h
    omega

theorem checks_read (offset size : Nat) :
    (onMemory (·.read offset size)).Checks (onMemory (Checked.read · offset size)) := by
  refine checks_onMemory (Checked.read_eq · offset size) (fun m h => ?_) fun m hm => ?_
  · cases Memory.read_eq_error h
  · exact m.size_perform_le (.read offset size) hm

theorem checks_readWord (offset : Nat) :
    (onMemory (·.readWord offset)).Checks (onMemory (Checked.readWord · offset)) := by
  refine checks_onMemory (Checked.readWord_eq · offset) (fun m h => ?_) fun m hm => ?_
  · cases Memory.readWord_eq_error h
  · exact m.size_perform_le (.readWord offset) hm

theorem checks_writeWord (offset : Nat) (word : Word) :
    (onMemory (·.writeWord offset word)).Checks (onMemory (Checked.writeWord · offset word)) := by
  refine checks_onMemory (fun m => Checked.write_eq m offset (Bytes.ofWord word)) (fun m h => ?_)
    fun m hm => ?_
  · cases Memory.writeWord_eq_error h
  · exact m.size_perform_le (.writeWord offset word) hm

/-- An immediate is taken with a cursor that stays at its greatest value once it gets there. -/
theorem checks_immediate {size : Nat} (hsize : size ≤ Bytes.maxSize) :
    (onCode (·.read size)).Checks (onCode (·.read size)) := by
  refine ⟨fun _ _ => rfl, fun m hm => ?_, fun m hm => ?_⟩
  · rw [run_onCode]
    have hrange := Checked.read_ne_outOfRange hsize hm.code_le
    rcases hread : m.code.read size with fault | ⟨data, code⟩
    · rw [hread] at hrange
      exact fun h => hrange (congrArg Except.error (Except.error.inj h))
    · exact fun h => by cases h
  · rw [run_onCode]
    rcases hread : m.code.read size with fault | ⟨data, code⟩
    · exact hm
    · obtain rfl := Code.seek_of_read hread
      exact ⟨hm.depth_le, hm.memory_le, hm.code_le, Nat.min_le_right _ _⟩

end Action

namespace Instruction

/-- Moves the cursor to a target for jumps, which is searched for with checked sums. -/
def jumpToChecked (destination : Word) : Action Unit := do
  match Checked.isJumpTarget (← get).code destination.toNat with
  | .ok true => modify fun m => { m with code := m.code.seek destination.toNat }
  | .ok false => throw (.invalidJump destination)
  | .error fault => throw fault

/-- Takes an offset and a size off the stack and hands that range of memory back, with checked
operations. -/
def handBackChecked : Action ByteArray := do
  let (offset, size) ← Action.onStack Checked.popPair
  let data ← Action.onMemory (Checked.read · offset.toNat size.toNat)
  Action.setReturnData data
  return data

/-- What an instruction does to the machine, with checked operations. -/
def executeChecked : Instruction → Action Flow
  | stop => return .halt
  | binary op => do
    let (a, b) ← Action.onStack Checked.popPair
    Action.push (op.apply a b)
    return .proceed
  | isZero => do
    let a ← Action.pop
    Action.push (BinaryOp.truth (a = 0))
    return .proceed
  | pop => do
    let _ ← Action.pop
    return .proceed
  | mload => do
    let offset ← Action.pop
    let word ← Action.onMemory (Checked.readWord · offset.toNat)
    Action.push word
    return .proceed
  | mstore => do
    let (offset, word) ← Action.onStack Checked.popPair
    Action.onMemory (Checked.writeWord · offset.toNat word)
    return .proceed
  | jump => do
    jumpToChecked (← Action.pop)
    return .proceed
  | jumpi => do
    let (destination, condition) ← Action.onStack Checked.popPair
    unless condition = 0 do jumpToChecked destination
    return .proceed
  | pc => do
    -- The difference stays at zero.
    let position := (← get).position - 1
    Action.push (UInt64.ofNat position)
    return .proceed
  | jumpDest => return .proceed
  | push index => do
    let immediate ← Action.onCode (·.read (index.val + 1))
    Action.push (Bytes.toWord immediate)
    return .proceed
  | dup index => do
    Action.onStack fun s => (Checked.dup s (index.val + 1)).map ((), ·)
    return .proceed
  | swap index => do
    Action.onStack fun s => (Checked.swap s (index.val + 1)).map ((), ·)
    return .proceed
  | ret => do
    let _ ← handBackChecked
    return .halt
  | revert => do
    let data ← handBackChecked
    throw (.reverted data)
  | invalid => throw (.invalidInstruction Opcode.invalid)

theorem checks_jumpTo (destination : Word) :
    (jumpTo destination).Checks (jumpToChecked destination) := by
  refine ⟨fun m hm => ?_, fun m hm => ?_, fun m hm => ?_⟩
  · rw [run_jumpTo, jumpToChecked, Action.run_bind]
    show ExceptT.run (m := StateM Machine) (match Checked.isJumpTarget m.code destination.toNat with
      | .ok true => _
      | .ok false => _
      | .error fault => _) m = _
    rw [Checked.isJumpTarget_eq hm.code_le]
    cases m.code.isJumpTarget destination.toNat <;> rfl
  · rw [run_jumpTo]
    split_ifs
    · exact fun h => by cases h
    · exact fun h => by cases h
  · rw [run_jumpTo]
    split_ifs
    · exact ⟨hm.depth_le, hm.memory_le, hm.code_le, Word.toNat_le_maxPosition destination⟩
    · exact hm

theorem checks_handBack : handBack.Checks handBackChecked :=
  Action.checks_popPair.bind fun _ => (Action.checks_read _ _).bind fun _ =>
    (Action.checks_setReturnData _).bind fun _ => Action.checks_pure _

/-- **Within the limits an instruction is never out of range** and stays within them. -/
theorem checks_execute (x : Instruction) : x.execute.Checks x.executeChecked := by
  have hdone (flow : Flow) : (return flow : Action Flow).Checks (return flow) :=
    Action.checks_pure flow
  have hpush (word : Word) : (do Action.push word; return .proceed : Action Flow).Checks
      (do Action.push word; return .proceed) := (Action.checks_push word).bind fun _ => hdone _
  cases x with
  | stop => exact hdone _
  | binary op => exact Action.checks_popPair.bind fun _ => hpush _
  | isZero => exact Action.checks_pop.bind fun _ => hpush _
  | pop => exact Action.checks_pop.bind fun _ => hdone _
  | mload =>
    exact Action.checks_pop.bind fun _ => (Action.checks_readWord _).bind fun _ => hpush _
  | mstore =>
    exact Action.checks_popPair.bind fun _ => (Action.checks_writeWord _ _).bind fun _ => hdone _
  | jump => exact Action.checks_pop.bind fun _ => (checks_jumpTo _).bind fun _ => hdone _
  | jumpi =>
    refine Action.checks_popPair.bind fun operands => ?_
    show Action.Checks (if operands.2 = 0 then (return .proceed : Action Flow)
      else do jumpTo operands.1; return .proceed) (if operands.2 = 0 then return .proceed
      else do jumpToChecked operands.1; return .proceed)
    split_ifs
    · exact hdone _
    · exact (checks_jumpTo _).bind fun _ => hdone _
  | pc => exact Action.checks_get.bind fun _ => hpush _
  | jumpDest => exact hdone _
  | push index =>
    have hsize : index.val + 1 ≤ Bytes.maxSize := by
      have hmax : 8 ≤ Bytes.maxSize := by decide
      omega
    exact (Action.checks_immediate hsize).bind fun _ => hpush _
  | dup index => exact (Action.checks_dup _).bind fun _ => hdone _
  | swap index =>
    exact (Action.checks_swap (swapDepth_lt_maxPosition index)).bind fun _ => hdone _
  | ret => exact checks_handBack.bind fun _ => hdone _
  | revert => exact checks_handBack.bind fun _ => Action.checks_throw (by simp)
  | invalid => exact Action.checks_throw (by simp)

end Instruction

end BytecodeDebugger
