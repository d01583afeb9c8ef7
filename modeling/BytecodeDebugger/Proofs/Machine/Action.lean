import BytecodeDebugger.Machine.Basic
import BytecodeDebugger.Proofs.Machine.Stack

/-!
# Actions

What comes of two actions in a row and of operations on the code, the stack and the memory
(`Action.run_bind`, `Action.run_onCode`, `Action.run_onStack`, `Action.run_onMemory`), and what it
takes for them to succeed (`Action.run_bind_eq_ok_iff` and so on) or to fail
(`Action.run_bind_eq_error_iff` and so on).

An action relates the machines before and after it, whether or not it succeeds (`Action.Relates`).
If the relation can be chained and all parts of an action relate the machines so, the action does.
Above all an action keeps a view of the machine if the view is the same before and after it
(`Action.Keeps`).
-/

namespace BytecodeDebugger

namespace Action

variable {α β γ : Type} {m m' : Machine} {fault : Fault}

/-! ### What comes of an action -/

theorem run_bind (x : Action α) (f : α → Action β) (m : Machine) :
    (x >>= f).run m = match x.run m with
      | (.ok a, m) => (f a).run m
      | (.error fault, m) => (.error fault, m) := by
  show ExceptT.bindCont f (x.run m).1 (x.run m).2 = _
  rcases x.run m with ⟨fault | a, m'⟩ <;> rfl

theorem run_onCode (f : Code → Except Fault (α × Code)) (m : Machine) :
    (onCode f).run m = match f m.code with
      | .ok (a, code) => (.ok a, { m with code })
      | .error fault => (.error fault, m) := by
  rw [onCode, run_bind]
  show ExceptT.run (m := StateM Machine) _ m = _
  rcases f m.code with fault | ⟨a, code⟩ <;> rfl

theorem run_onStack (f : Stack → Except Fault (α × Stack)) (m : Machine) :
    (onStack f).run m = match f m.stack with
      | .ok (a, stack) => (.ok a, { m with stack })
      | .error fault => (.error fault, m) := by
  rw [onStack, run_bind]
  show ExceptT.run (m := StateM Machine) _ m = _
  rcases f m.stack with fault | ⟨a, stack⟩ <;> rfl

theorem run_onMemory (f : Memory → Except Fault α × Memory) (m : Machine) :
    (onMemory f).run m = ((f m.memory).1, { m with memory := (f m.memory).2 }) :=
  rfl

theorem run_push (word : Word) (m : Machine) : (push word).run m =
    if m.stack.depth < Stack.limit then (.ok (), { m with stack := ⟨word :: m.stack.words⟩ })
    else (.error (.stackOverflow Stack.limit), m) := by
  rw [push, run_onStack, Stack.push]
  by_cases h : m.stack.depth < Stack.limit
  · simp only [if_pos h]
    rfl
  · simp only [if_neg h]
    rfl

/-! ### Success -/

theorem run_bind_eq_ok_iff {x : Action α} {f : α → Action β} {b : β} :
    (x >>= f).run m = (.ok b, m') ↔
      ∃ a m₁, x.run m = (.ok a, m₁) ∧ (f a).run m₁ = (.ok b, m') := by
  rw [run_bind]
  constructor
  · intro h
    rcases hx : x.run m with ⟨fault | a, m₁⟩
    · rw [hx] at h
      cases h
    · rw [hx] at h
      exact ⟨a, m₁, rfl, h⟩
  · rintro ⟨a, m₁, hx, hf⟩
    rw [hx]
    exact hf

theorem run_onCode_eq_ok_iff {f : Code → Except Fault (α × Code)} {a : α} :
    (onCode f).run m = (.ok a, m') ↔ ∃ code, f m.code = .ok (a, code) ∧ m' = { m with code } := by
  rw [run_onCode]
  constructor
  · intro h
    rcases hf : f m.code with fault | ⟨a', code⟩
    · rw [hf] at h
      cases h
    · rw [hf] at h
      obtain ⟨ha, rfl⟩ := Prod.mk.inj h
      obtain rfl := Except.ok.inj ha
      exact ⟨code, rfl, rfl⟩
  · rintro ⟨code, hf, rfl⟩
    rw [hf]

theorem run_onStack_eq_ok_iff {f : Stack → Except Fault (α × Stack)} {a : α} :
    (onStack f).run m = (.ok a, m') ↔
      ∃ stack, f m.stack = .ok (a, stack) ∧ m' = { m with stack } := by
  rw [run_onStack]
  constructor
  · intro h
    rcases hf : f m.stack with fault | ⟨a', stack⟩
    · rw [hf] at h
      cases h
    · rw [hf] at h
      obtain ⟨ha, rfl⟩ := Prod.mk.inj h
      obtain rfl := Except.ok.inj ha
      exact ⟨stack, rfl, rfl⟩
  · rintro ⟨stack, hf, rfl⟩
    rw [hf]

theorem run_pop_eq_ok_iff {word : Word} : pop.run m = (.ok word, m') ↔
    ∃ rest, m.stack.words = word :: rest ∧ m' = { m with stack := ⟨rest⟩ } := by
  rw [pop, run_onStack_eq_ok_iff, Stack.pop]
  rcases m.stack.words with _ | ⟨word', rest⟩
  · simp
  · simp only [Except.ok.injEq, Prod.mk.injEq, List.cons.injEq]
    constructor
    · rintro ⟨stack, ⟨rfl, rfl⟩, rfl⟩
      exact ⟨rest, ⟨rfl, rfl⟩, rfl⟩
    · rintro ⟨rest', ⟨rfl, rfl⟩, rfl⟩
      exact ⟨⟨rest⟩, ⟨rfl, rfl⟩, rfl⟩

theorem run_popPair_eq_ok_iff {first second : Word} :
    popPair.run m = (.ok (first, second), m') ↔
      ∃ rest, m.stack.words = first :: second :: rest ∧ m' = { m with stack := ⟨rest⟩ } := by
  rw [popPair, run_onStack_eq_ok_iff, Stack.popPair]
  rcases m.stack.words with _ | ⟨first', _ | ⟨second', rest⟩⟩
  · simp
  · simp
  · simp only [Except.ok.injEq, Prod.mk.injEq, List.cons.injEq]
    constructor
    · rintro ⟨stack, ⟨⟨rfl, rfl⟩, rfl⟩, rfl⟩
      exact ⟨rest, ⟨rfl, rfl, rfl⟩, rfl⟩
    · rintro ⟨rest', ⟨rfl, rfl, rfl⟩, rfl⟩
      exact ⟨⟨rest⟩, ⟨⟨rfl, rfl⟩, rfl⟩, rfl⟩

theorem run_push_eq_ok_iff {word : Word} : (push word).run m = (.ok (), m') ↔
    m.stack.depth < Stack.limit ∧ m' = { m with stack := ⟨word :: m.stack.words⟩ } := by
  rw [push, run_onStack_eq_ok_iff, Stack.push]
  by_cases hdepth : m.stack.depth < Stack.limit
  · simp [hdepth, Except.map]
  · simp [hdepth, Except.map]

/-! ### Failure -/

/-- Two actions in a row fail where one of them does. -/
theorem run_bind_eq_error_iff {x : Action α} {f : α → Action β} :
    (x >>= f).run m = (.error fault, m') ↔ x.run m = (.error fault, m') ∨
      ∃ a m₁, x.run m = (.ok a, m₁) ∧ (f a).run m₁ = (.error fault, m') := by
  rw [run_bind]
  constructor
  · intro h
    rcases hx : x.run m with ⟨fault' | a, m₁⟩
    · rw [hx] at h
      obtain ⟨hfault, rfl⟩ := Prod.mk.inj h
      obtain rfl := Except.error.inj hfault
      exact Or.inl rfl
    · rw [hx] at h
      exact Or.inr ⟨a, m₁, rfl, h⟩
  · rintro (hx | ⟨a, m₁, hx, hf⟩)
    · rw [hx]
    · rw [hx]
      exact hf

theorem run_onStack_eq_error_iff {f : Stack → Except Fault (α × Stack)} :
    (onStack f).run m = (.error fault, m') ↔ f m.stack = .error fault ∧ m' = m := by
  rw [run_onStack]
  constructor
  · intro h
    rcases hf : f m.stack with fault' | ⟨a, stack⟩
    · rw [hf] at h
      obtain ⟨hfault, rfl⟩ := Prod.mk.inj h
      exact ⟨congrArg Except.error (Except.error.inj hfault), rfl⟩
    · rw [hf] at h
      cases h
  · rintro ⟨hf, rfl⟩
    rw [hf]

theorem run_pop_eq_error_iff : pop.run m = (.error fault, m') ↔
    m.stack.depth < 1 ∧ fault = m.stack.underflow 1 ∧ m' = m := by
  rw [pop, run_onStack_eq_error_iff, Stack.pop_eq_error_iff, and_assoc]

theorem run_popPair_eq_error_iff : popPair.run m = (.error fault, m') ↔
    m.stack.depth < 2 ∧ fault = m.stack.underflow 2 ∧ m' = m := by
  rw [popPair, run_onStack_eq_error_iff, Stack.popPair_eq_error_iff, and_assoc]

theorem run_push_eq_error_iff {word : Word} : (push word).run m = (.error fault, m') ↔
    Stack.limit ≤ m.stack.depth ∧ fault = .stackOverflow Stack.limit ∧ m' = m := by
  have herror : (m.stack.push word).map ((), ·) = .error fault ↔
      m.stack.push word = .error fault :=
    ⟨Except.map_eq_error, fun h => by rw [h]; rfl⟩
  rw [push, run_onStack_eq_error_iff, herror, Stack.push_eq_error_iff, and_assoc]

/-! ### What an action relates -/

/-- The machines before and after an action are related. -/
def Relates (R : Machine → Machine → Prop) (x : Action α) : Prop :=
  ∀ m, R m (x.run m).2

section Relates

variable {R : Machine → Machine → Prop}

theorem relates_pure (hrefl : ∀ m, R m m) (a : α) : (pure a : Action α).Relates R :=
  hrefl

theorem relates_throw (hrefl : ∀ m, R m m) (fault : Fault) : (throw fault : Action α).Relates R :=
  hrefl

theorem relates_get (hrefl : ∀ m, R m m) : (get : Action Machine).Relates R :=
  hrefl

theorem Relates.bind (htrans : ∀ m₁ m₂ m₃, R m₁ m₂ → R m₂ m₃ → R m₁ m₃) {x : Action α}
    {f : α → Action β} (hx : x.Relates R) (hf : ∀ a, (f a).Relates R) : (x >>= f).Relates R := by
  intro m
  have hm := hx m
  rw [run_bind]
  rcases hxm : x.run m with ⟨fault | a, m₁⟩
  · rwa [hxm] at hm
  · rw [hxm] at hm
    exact htrans m m₁ _ hm (hf a m₁)

theorem relates_onCode (hrefl : ∀ m, R m m) (f : Code → Except Fault (α × Code))
    (h : ∀ m a code, f m.code = .ok (a, code) → R m { m with code }) : (onCode f).Relates R := by
  intro m
  rw [run_onCode]
  rcases hf : f m.code with fault | ⟨a, code⟩
  · exact hrefl m
  · exact h m a code hf

theorem relates_onStack (hrefl : ∀ m, R m m) (f : Stack → Except Fault (α × Stack))
    (h : ∀ m a stack, f m.stack = .ok (a, stack) → R m { m with stack }) :
    (onStack f).Relates R := by
  intro m
  rw [run_onStack]
  rcases hf : f m.stack with fault | ⟨a, stack⟩
  · exact hrefl m
  · exact h m a stack hf

theorem relates_onMemory (f : Memory → Except Fault α × Memory)
    (h : ∀ m : Machine, R m { m with memory := (f m.memory).2 }) : (onMemory f).Relates R :=
  h

theorem relates_setReturnData (data : ByteArray)
    (h : ∀ m : Machine, R m { m with returnData := data }) : (setReturnData data).Relates R :=
  h

end Relates

/-! ### What an action keeps -/

/-- A view of the machine is the same before and after an action. -/
def Keeps (view : Machine → γ) (x : Action α) : Prop :=
  ∀ m, view (x.run m).2 = view m

variable {view : Machine → γ}

theorem Keeps.eq {x : Action α} {result : Except Fault α} (h : x.Keeps view)
    (hx : x.run m = (result, m')) : view m' = view m := by
  have hview := h m
  rwa [hx] at hview

theorem keeps_pure (a : α) : (pure a : Action α).Keeps view :=
  fun _ => rfl

theorem keeps_throw (fault : Fault) : (throw fault : Action α).Keeps view :=
  fun _ => rfl

theorem Keeps.bind {x : Action α} {f : α → Action β} (hx : x.Keeps view)
    (hf : ∀ a, (f a).Keeps view) : (x >>= f).Keeps view :=
  Relates.bind (R := fun m m' => view m' = view m) (fun _ _ _ h₁₂ h₂₃ => h₂₃.trans h₁₂) hx hf

theorem keeps_onStack (f : Stack → Except Fault (α × Stack))
    (h : ∀ m stack, view { m with stack } = view m) : (onStack f).Keeps view :=
  relates_onStack (R := fun m m' => view m' = view m) (fun _ => rfl) f
    fun m _ stack _ => h m stack

end Action

end BytecodeDebugger
