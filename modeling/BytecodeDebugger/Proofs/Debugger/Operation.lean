import BytecodeDebugger.Proofs.Run.Gather
import BytecodeDebugger.Proofs.Run.Pause

/-!
# What is done with a debugger

Breakpoints are set and deleted, and calls are run, in any order and with any handlers.  The states
of all these handlers are kept together, in one `σ`, so that a handler may go on in a later run from
where an earlier one left it.

What holds at first and is kept by every operation holds after all of them
(`Debugger.performAll?_induction`), together with what is gathered on the way (`Debugger.gather`).
Within a run, `Interpreter.pause_induction` says the same of its pauses; `Debugger.run_induction`
is its form for the run of a debugger.
-/

namespace BytecodeDebugger.Debugger

/-- Something that is done with a debugger. -/
inductive Operation (σ : Type) where
  | setBreakpoint (line : Nat)
  | removeBreakpoint (line : Nat)
  | run (handler : Handler σ) (frame : Frame) (journal : Journal) (steps : Nat)

variable {σ α : Type} {d d' : Debugger} {state state' : σ}

/-- The debugger and the states of the handlers after an operation.  There are none if a run does
not come to its end. -/
def perform? (d : Debugger) (state : σ) : Operation σ → Option (Debugger × σ)
  | .setBreakpoint line => some ((d.setBreakpoint line).2, state)
  | .removeBreakpoint line => some ((d.removeBreakpoint line).2, state)
  | .run handler frame journal steps =>
    (d.run handler steps state frame journal).map fun x => (x.debugger, x.handler)

/-- The debugger and the states of the handlers after operations, one after another. -/
def performAll? (d : Debugger) (state : σ) : List (Operation σ) → Option (Debugger × σ)
  | [] => some (d, state)
  | operation :: operations =>
    (d.perform? state operation).bind fun x => x.1.performAll? x.2 operations

/-- What `f` reads off operations, in order, each with the debugger and the states of the handlers
that it meets. -/
def gather (f : Debugger → σ → Operation σ → List α) (d : Debugger) (state : σ) :
    List (Operation σ) → List α
  | [] => []
  | operation :: operations => f d state operation ++
    ((d.perform? state operation).map fun x => x.1.gather f x.2 operations).getD []

/-- **Induction over operations.**  What holds at first and is kept by every operation holds after
all of them. -/
theorem performAll?_induction (f : Debugger → σ → Operation σ → List α)
    {P : List α → Debugger → σ → Prop} {operations : List (Operation σ)}
    (h : d.performAll? state operations = some (d', state')) (start : P [] d state)
    (step : ∀ operation ∈ operations, ∀ gathered d₁ state₁ d₂ state₂, P gathered d₁ state₁ →
      d₁.perform? state₁ operation = some (d₂, state₂) →
      P (gathered ++ f d₁ state₁ operation) d₂ state₂) :
    P (d.gather f state operations) d' state' := by
  -- What has been gathered before is carried along.
  suffices hall : ∀ gathered, P gathered d state →
      P (gathered ++ d.gather f state operations) d' state' from hall [] start
  clear start
  induction operations generalizing d state with
  | nil =>
    intro gathered hP
    obtain ⟨rfl, rfl⟩ := Prod.mk.inj (Option.some.inj h)
    rwa [gather, List.append_nil]
  | cons operation operations ih =>
    intro gathered hP
    obtain ⟨⟨d₁, state₁⟩, hfirst, hrest⟩ := Option.bind_eq_some_iff.mp h
    have hstep := step operation List.mem_cons_self gathered d state d₁ state₁ hP hfirst
    have hlater := ih hrest (fun later hlater => step later (List.mem_cons_of_mem _ hlater)) _ hstep
    rw [gather, hfirst, Option.map_some, Option.getD_some, ← List.append_assoc]
    exact hlater

/-- What holds of the breakpoints and the state of the handler at the start of a run and is kept by
every pause holds after it. -/
theorem run_induction {handler : Handler σ} {frame : Frame} {journal : Journal} {steps : Nat}
    (h : d.perform? state (.run handler frame journal steps) = some (d', state'))
    (f : Run LineBreakpoints σ → List α) {P : List α → LineBreakpoints × σ × Bool → Prop}
    (start : P [] (d.breakpoints, state, false))
    (pause : ∀ k rk gathered,
      d.interpreter.stateAt? handler (d.start frame state journal) k = some rk →
      P gathered rk.carried →
      P (gathered ++ f rk) (d.interpreter.afterPause handler rk).carried) :
    ∃ stepping, P (d.interpreter.gather handler (d.start frame state journal) f steps)
      (d'.breakpoints, state', stepping) := by
  obtain ⟨result, hrun, hresult⟩ := Option.map_eq_some_iff.mp h
  obtain ⟨rfl, rfl⟩ := Prod.mk.inj hresult
  rw [run_eq] at hrun
  obtain ⟨⟨ending, r'⟩, hend, rfl⟩ := Option.map_eq_some_iff.mp hrun
  obtain ⟨-, hP⟩ :=
    d.interpreter.pause_induction handler (d.start frame state journal) f start pause
  exact ⟨r'.stepping, hP steps ending r' hend⟩

end BytecodeDebugger.Debugger
