import BytecodeDebugger.Proofs.Instruction.Cursor
import BytecodeDebugger.Proofs.Machine.Memory
import BytecodeDebugger.Proofs.Machine.Stack
import Mathlib.Tactic.SplitIfs

/-!
# How instructions fail

An action fails only in certain ways if all its parts do (`Action.FailsOnly`).  The stack, the
memory and the code have a few ways to fail each, and no instruction has others, but for the one
that fails because the program asks for it (`Instruction.failsOnly_execute`).
-/

namespace BytecodeDebugger

namespace Action

variable {α β : Type} {P : Fault → Prop} {m m' : Machine}

/-- Wherever an action fails, its fault is one of `P`. -/
def FailsOnly (P : Fault → Prop) (x : Action α) : Prop :=
  ∀ m fault, (x.run m).1 = .error fault → P fault

theorem failsOnly_pure (a : α) : (pure a : Action α).FailsOnly P := by
  intro m fault h
  cases h

theorem failsOnly_throw {fault : Fault} (h : P fault) : (throw fault : Action α).FailsOnly P := by
  intro m fault' hfault
  obtain rfl := Except.error.inj hfault
  exact h

theorem failsOnly_get : (get : Action Machine).FailsOnly P := by
  intro m fault h
  cases h

theorem failsOnly_setReturnData (data : ByteArray) : (setReturnData data).FailsOnly P := by
  intro m fault h
  cases h

theorem FailsOnly.bind {x : Action α} {f : α → Action β} (hx : x.FailsOnly P)
    (hf : ∀ a, (f a).FailsOnly P) : (x >>= f).FailsOnly P := by
  intro m fault h
  rw [run_bind] at h
  rcases hxm : x.run m with ⟨fault' | a, m₁⟩
  · rw [hxm] at h
    obtain rfl := Except.error.inj h
    exact hx m _ (congrArg Prod.fst hxm)
  · rw [hxm] at h
    exact hf a m₁ fault h

theorem failsOnly_onCode (f : Code → Except Fault (α × Code))
    (h : ∀ code fault, f code = .error fault → P fault) : (onCode f).FailsOnly P := by
  intro m fault hfault
  rw [run_onCode] at hfault
  rcases hf : f m.code with fault' | ⟨a, code⟩
  · rw [hf] at hfault
    obtain rfl := Except.error.inj hfault
    exact h m.code _ hf
  · rw [hf] at hfault
    cases hfault

theorem failsOnly_onStack (f : Stack → Except Fault (α × Stack))
    (h : ∀ stack fault, f stack = .error fault → P fault) : (onStack f).FailsOnly P := by
  intro m fault hfault
  rw [run_onStack] at hfault
  rcases hf : f m.stack with fault' | ⟨a, stack⟩
  · rw [hf] at hfault
    obtain rfl := Except.error.inj hfault
    exact h m.stack _ hf
  · rw [hf] at hfault
    cases hfault

theorem failsOnly_onMemory (f : Memory → Except Fault α × Memory)
    (h : ∀ memory fault, (f memory).1 = .error fault → P fault) : (onMemory f).FailsOnly P :=
  fun m fault hfault => h m.memory fault hfault

end Action

namespace Memory

variable {m : Memory} {offset size : Nat} {fault : Fault}

theorem read_eq_error (h : (m.read offset size).1 = .error fault) :
    fault = .memoryLimit offset size :=
  (perform_eq_error (.read offset size) rfl h).1

theorem readWord_eq_error (h : (m.readWord offset).1 = .error fault) :
    fault = .memoryLimit offset 8 :=
  (perform_eq_error (.readWord offset) rfl h).1

theorem writeWord_eq_error {word : Word} (h : (m.writeWord offset word).1 = .error fault) :
    fault = .memoryLimit offset 8 :=
  (perform_eq_error (.writeWord offset word) rfl h).1

end Memory

theorem Code.read_eq_error {c : Code} {size : Nat} {fault : Fault}
    (h : c.read size = .error fault) : fault = .outOfRange := by
  unfold read at h
  simp only at h
  split_ifs at h
  · exact (Except.error.inj h).symm
  · split at h
    · cases h
    · exact (Except.error.inj h).symm

/-! ### The parts of an instruction -/

/-- A fault that comes from the machine: neither the program nor a precompiled routine has asked for
it. -/
def Fault.Intrinsic : Fault → Prop
  | reverted _ | precompile _ => False
  | _ => True

namespace Action

theorem failsOnly_pop : pop.FailsOnly Fault.Intrinsic := by
  refine failsOnly_onStack _ fun s fault h => ?_
  rw [Stack.pop_eq_error h]
  trivial

theorem failsOnly_popPair : popPair.FailsOnly Fault.Intrinsic := by
  refine failsOnly_onStack _ fun s fault h => ?_
  rw [Stack.popPair_eq_error h]
  trivial

theorem failsOnly_push (word : Word) : (push word).FailsOnly Fault.Intrinsic := by
  refine failsOnly_onStack _ fun s fault h => ?_
  rw [Stack.push_eq_error (Except.map_eq_error h)]
  trivial

theorem failsOnly_dup (below : Nat) :
    (onStack fun s => (s.dup (below + 1)).map ((), ·)).FailsOnly Fault.Intrinsic := by
  refine failsOnly_onStack _ fun s fault h => ?_
  rcases Stack.dup_eq_error (Except.map_eq_error h) with rfl | rfl
  · trivial
  · trivial

theorem failsOnly_swap {below : Nat} (h : below < maxPosition) :
    (onStack fun s => (s.swap below).map ((), ·)).FailsOnly Fault.Intrinsic := by
  refine failsOnly_onStack _ fun s fault herror => ?_
  rw [Stack.swap_eq_error h (Except.map_eq_error herror)]
  trivial

theorem failsOnly_perform (operation : Memory.Operation) {range : Nat × Nat}
    (hrange : operation.range? = some range) :
    (onMemory (·.perform operation)).FailsOnly Fault.Intrinsic := by
  refine failsOnly_onMemory _ fun m fault h => ?_
  rw [(Memory.perform_eq_error operation hrange h).1]
  trivial

theorem failsOnly_immediate (size : Nat) : (onCode (·.read size)).FailsOnly Fault.Intrinsic := by
  refine failsOnly_onCode _ fun c fault h => ?_
  rw [Code.read_eq_error h]
  trivial

end Action

/-! ### Instructions -/

namespace Instruction

theorem failsOnly_jumpTo (destination : Word) :
    (jumpTo destination).FailsOnly Fault.Intrinsic := by
  intro m fault h
  rw [run_jumpTo] at h
  split_ifs at h
  obtain rfl := Except.error.inj h
  trivial

theorem failsOnly_handBack : handBack.FailsOnly Fault.Intrinsic :=
  Action.failsOnly_popPair.bind fun operands =>
    (Action.failsOnly_perform (.read operands.1.toNat operands.2.toNat) rfl).bind fun _ =>
      (Action.failsOnly_setReturnData _).bind fun _ => Action.failsOnly_pure _

/-- **How an instruction fails**: in the ways of its parts, and there is one that fails because the
program asks for it. -/
theorem failsOnly_execute {x : Instruction} (h : x ≠ .revert) :
    x.execute.FailsOnly Fault.Intrinsic := by
  have hdone : (return .proceed : Action Flow).FailsOnly Fault.Intrinsic := Action.failsOnly_pure _
  have hpush (word : Word) : (do Action.push word; return .proceed : Action Flow).FailsOnly
      Fault.Intrinsic := (Action.failsOnly_push word).bind fun _ => hdone
  cases x with
  | stop => exact Action.failsOnly_pure _
  | binary op => exact Action.failsOnly_popPair.bind fun _ => hpush _
  | isZero => exact Action.failsOnly_pop.bind fun _ => hpush _
  | pop => exact Action.failsOnly_pop.bind fun _ => hdone
  | mload =>
    exact Action.failsOnly_pop.bind fun offset =>
      (Action.failsOnly_perform (.readWord offset.toNat) rfl).bind fun _ => hpush _
  | mstore =>
    exact Action.failsOnly_popPair.bind fun operands =>
      (Action.failsOnly_perform (.writeWord operands.1.toNat operands.2) rfl).bind fun _ => hdone
  | jump => exact Action.failsOnly_pop.bind fun _ => (failsOnly_jumpTo _).bind fun _ => hdone
  | jumpi =>
    -- What the instruction does next hangs on what it has taken off the stack.
    rw [execute_jumpi]
    refine Action.failsOnly_popPair.bind fun operands => ?_
    split_ifs
    · exact hdone
    · exact (failsOnly_jumpTo _).bind fun _ => hdone
  | pc => exact Action.failsOnly_get.bind fun _ => hpush _
  | jumpDest => exact hdone
  | push index => exact (Action.failsOnly_immediate _).bind fun _ => hpush _
  | dup index => exact (Action.failsOnly_dup _).bind fun _ => hdone
  | swap index => exact (Action.failsOnly_swap (swapDepth_lt_maxPosition index)).bind fun _ => hdone
  | ret => exact failsOnly_handBack.bind fun _ => Action.failsOnly_pure _
  | revert => exact absurd rfl h
  | invalid => exact Action.failsOnly_throw trivial

end Instruction

end BytecodeDebugger
