import BytecodeDebugger.Proofs.Instruction.Cursor
import BytecodeDebugger.Proofs.Machine.Stack

/-!
# Instructions and the words below

An action is local if it does the same on a machine with more words below those on its stack, and
leaves them there (`Action.Local`).  Nothing is said of actions that fail for the number of words on
the stack: with more words below, the stack may not be too shallow any more.

**Every instruction is local** (`Instruction.local_execute`), as long as the stack that it leaves
has room for the words below.
-/

namespace BytecodeDebugger

/-- A fault that comes of too few or too many words on the stack. -/
def Fault.OfStack : Fault → Prop
  | stackUnderflow _ _ | stackOverflow _ => True
  | _ => False

/-- There is room for so many more words. -/
def Stack.HasRoom (count : Nat) (s : Stack) : Prop :=
  s.depth + count ≤ limit

/-- The machine with more words below those on its stack. -/
def Machine.above (m : Machine) (below : List Word) : Machine :=
  { m with stack := m.stack.above below }

namespace Action

variable {α β : Type} {fits : Stack → Prop} {below : List Word}

/-- An action does the same with more words below the stack, if it does not fail for the stack, and
leaves a stack that fits. -/
def Local (fits : Stack → Prop) (below : List Word) (x : Action α) : Prop :=
  ∀ m result m', x.run m = (result, m') → (∀ fault, result = .error fault → ¬ fault.OfStack) →
    fits m'.stack → x.run (m.above below) = (result, m'.above below)

theorem local_pure (a : α) : (pure a : Action α).Local fits below := by
  intro m result m' h _ _
  obtain ⟨rfl, rfl⟩ := Prod.mk.inj h
  rfl

theorem local_throw (fault : Fault) : (throw fault : Action α).Local fits below := by
  intro m result m' h _ _
  obtain ⟨rfl, rfl⟩ := Prod.mk.inj h
  rfl

/-- What hangs on the machine may hang on anything but the stack. -/
theorem local_get_bind {f : Machine → Action α} (hf : ∀ m, f (m.above below) = f m)
    (h : ∀ m, (f m).Local fits below) : (get >>= f : Action α).Local fits below := by
  intro m result m' hrun
  have hlocal := h m m result m' hrun
  rw [← hf m] at hlocal
  exact hlocal

/-- Two actions in a row are local if the first leaves a stack that fits whenever both do. -/
theorem Local.bind_of_fits {fits₁ : Stack → Prop} {x : Action α} {f : α → Action β}
    (hx : x.Local fits₁ below) (hf : ∀ a, (f a).Local fits below)
    (hfirst : ∀ s, fits s → fits₁ s)
    (hboth : ∀ a m, fits ((f a).run m).2.stack → fits₁ m.stack) :
    (x >>= f).Local fits below := by
  intro m result m' h hfault hfits
  rw [run_bind] at h ⊢
  rcases hxm : x.run m with ⟨fault | a, m₁⟩
  · rw [hxm] at h
    obtain ⟨rfl, rfl⟩ := Prod.mk.inj h
    have hfault' : ∀ fault', (.error fault : Except Fault α) = .error fault' →
        ¬ fault'.OfStack := by
      rintro _ ⟨⟩
      exact hfault fault rfl
    rw [hx m _ _ hxm hfault' (hfirst _ hfits)]
  · rw [hxm] at h
    change (f a).run m₁ = (result, m') at h
    have hfits₁ : fits₁ m₁.stack := hboth a m₁ (by rwa [h])
    rw [hx m _ _ hxm (fun _ herror => by cases herror) hfits₁]
    exact hf a m₁ result m' h hfault hfits

/-- Nothing needs to fit before the last part of an action. -/
theorem Local.bind {x : Action α} {f : α → Action β} (hx : x.Local (fun _ => True) below)
    (hf : ∀ a, (f a).Local fits below) : (x >>= f).Local fits below :=
  hx.bind_of_fits hf (fun _ _ => trivial) fun _ _ _ => trivial

theorem Local.bind_pure {x : Action α} (hx : x.Local fits below) (g : α → β) :
    (x >>= fun a => pure (g a)).Local fits below :=
  hx.bind_of_fits (fun a => local_pure (g a)) (fun _ h => h) fun _ _ h => h

theorem local_onCode (f : Code → Except Fault (α × Code)) : (onCode f).Local fits below := by
  intro m result m' h _ _
  rw [run_onCode] at h ⊢
  rcases hf : f m.code with fault | ⟨a, code⟩
  · rw [hf] at h
    obtain ⟨rfl, rfl⟩ := Prod.mk.inj h
    rw [Machine.above, hf]
  · rw [hf] at h
    obtain ⟨rfl, rfl⟩ := Prod.mk.inj h
    rw [Machine.above, hf]
    rfl

theorem local_onMemory (f : Memory → Except Fault α × Memory) :
    (onMemory f).Local fits below := by
  intro m result m' h _ _
  obtain ⟨rfl, rfl⟩ := Prod.mk.inj h
  rfl

theorem local_setReturnData (data : ByteArray) : (setReturnData data).Local fits below := by
  intro m result m' h _ _
  obtain ⟨rfl, rfl⟩ := Prod.mk.inj h
  rfl

theorem local_onStack {f : Stack → Except Fault (α × Stack)}
    (herror : ∀ s fault, f s = .error fault → fault.OfStack)
    (hok : ∀ s a s', f s = .ok (a, s') → fits s' → f (s.above below) = .ok (a, s'.above below)) :
    (onStack f).Local fits below := by
  intro m result m' h hfault hfits
  rw [run_onStack] at h ⊢
  rcases hf : f m.stack with fault | ⟨a, stack⟩
  · rw [hf] at h
    obtain ⟨rfl, rfl⟩ := Prod.mk.inj h
    exact absurd (herror _ _ hf) (hfault fault rfl)
  · rw [hf] at h
    obtain ⟨rfl, rfl⟩ := Prod.mk.inj h
    have habove : f (m.above below).stack = .ok (a, stack.above below) := hok _ _ _ hf hfits
    rw [habove]
    rfl

/-- The same for an operation on the stack that gives nothing back but the stack. -/
theorem local_onStack_map {f : Stack → Except Fault Stack}
    (herror : ∀ s fault, f s = .error fault → fault.OfStack)
    (hok : ∀ s s', f s = .ok s' → fits s' → f (s.above below) = .ok (s'.above below)) :
    (onStack fun s => (f s).map ((), ·)).Local fits below := by
  refine local_onStack (fun s fault h => herror s fault (Except.map_eq_error h)) ?_
  intro s a s' h hfits
  obtain ⟨stack, hstack, hs'⟩ := Except.map_eq_ok_iff.mp h
  obtain ⟨-, rfl⟩ := Prod.mk.inj hs'
  rw [hok s stack hstack hfits]
  rfl

/-! ### The parts of an instruction -/

theorem local_pop : pop.Local fits below := by
  refine local_onStack (fun s fault h => ?_) fun s word s' h _ => Stack.pop_above h
  rw [Stack.pop_eq_error h]
  trivial

theorem local_popPair : popPair.Local fits below := by
  refine local_onStack (fun s fault h => ?_) fun s words s' h _ => Stack.popPair_above h
  rw [Stack.popPair_eq_error h]
  trivial

theorem local_push (word : Word) : (push word).Local (Stack.HasRoom below.length) below := by
  refine local_onStack_map (fun s fault h => ?_) fun s s' => Stack.push_above
  rw [Stack.push_eq_error h]
  trivial

theorem local_dup (index : Nat) : (onStack fun s => (s.dup (index + 1)).map ((), ·)).Local
    (Stack.HasRoom below.length) below := by
  refine local_onStack_map (fun s fault h => ?_) fun s s' => Stack.dup_above
  rcases Stack.dup_eq_error h with rfl | rfl
  · trivial
  · trivial

theorem local_swap {index : Nat} (hindex : index < maxPosition) :
    (onStack fun s => (s.swap index).map ((), ·)).Local fits below := by
  refine local_onStack_map (fun s fault h => ?_) fun s s' h _ => Stack.swap_above h
  rw [Stack.swap_eq_error hindex h]
  trivial

end Action

namespace Instruction

variable {fits : Stack → Prop} {below : List Word}

theorem local_jumpTo (destination : Word) : (jumpTo destination).Local fits below := by
  intro m result m' h _ _
  rw [run_jumpTo] at h ⊢
  show (if m.code.isJumpTarget destination.toNat = true then _ else _) = _
  split_ifs at h ⊢
  · obtain ⟨rfl, rfl⟩ := Prod.mk.inj h
    rfl
  · obtain ⟨rfl, rfl⟩ := Prod.mk.inj h
    rfl

theorem local_handBack : handBack.Local fits below :=
  .bind Action.local_popPair fun _ => .bind (Action.local_onMemory _) fun data =>
    .bind (Action.local_setReturnData data) fun _ => Action.local_pure data

/-- **Every instruction is local**: it looks at no words but its operands, wherever they stand. -/
theorem local_execute (x : Instruction) :
    x.execute.Local (Stack.HasRoom below.length) below := by
  have hdone {fits : Stack → Prop} (flow : Flow) :
      (return flow : Action Flow).Local fits below := Action.local_pure flow
  have hpush (word : Word) : (do Action.push word; return .proceed : Action Flow).Local
      (Stack.HasRoom below.length) below := (Action.local_push word).bind_pure fun _ => Flow.proceed
  cases x with
  | stop => exact hdone _
  | binary op => exact .bind Action.local_popPair fun _ => hpush _
  | isZero => exact .bind Action.local_pop fun _ => hpush _
  | pop => exact .bind Action.local_pop fun _ => hdone _
  | mload =>
    exact .bind Action.local_pop fun _ => .bind (Action.local_onMemory _) fun _ => hpush _
  | mstore =>
    exact .bind Action.local_popPair fun _ => .bind (Action.local_onMemory _) fun _ => hdone _
  | jump => exact .bind Action.local_pop fun _ => .bind (local_jumpTo _) fun _ => hdone _
  | jumpi =>
    rw [execute_jumpi]
    refine .bind Action.local_popPair fun operands => ?_
    split_ifs
    · exact hdone _
    · exact .bind (local_jumpTo operands.1) fun _ => hdone _
  | pc => exact Action.local_get_bind (fun _ => rfl) fun _ => hpush _
  | jumpDest => exact hdone _
  | push index => exact .bind (Action.local_onCode _) fun _ => hpush _
  | dup index => exact (Action.local_dup index.val).bind_pure fun _ => Flow.proceed
  | swap index =>
    exact .bind (Action.local_swap (swapDepth_lt_maxPosition index)) fun _ => hdone _
  | ret => exact .bind local_handBack fun _ => hdone _
  | revert => exact .bind local_handBack fun _ => Action.local_throw _
  | invalid => exact Action.local_throw _

end Instruction

end BytecodeDebugger
