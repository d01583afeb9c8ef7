import BytecodeDebugger.Proofs.Run.History

/-!
# What is gathered along a run

A run changes its oracle, the state of its handler and the flag for single steps in its pauses and
nowhere else.  So what holds of the three at the start and is kept by every pause holds before each
instruction, and also at the end, whichever way the run ends (`Interpreter.pause_induction`).

The statement speaks at the same time of what can be read off the pauses so far: of the pauses
themselves, of what was edited in them, of what was answered there (`Interpreter.gather`).
-/

namespace BytecodeDebugger

/-- What a run carries from pause to pause: its oracle, the state of its handler, and the flag for
single steps. -/
def Run.carried {ω σ : Type} (r : Run ω σ) : ω × σ × Bool :=
  (r.oracle, r.handler, r.stepping)

namespace Interpreter

variable {ω σ α : Type} [BreakpointOracle ω] {i : Interpreter} {handler : Handler σ}
  {r r' : Run ω σ}

/-- What `f` reads off a run just before each of its first `k` instructions, in order. -/
def gather (i : Interpreter) (handler : Handler σ) (r : Run ω σ) (f : Run ω σ → List α)
    (k : Nat) : List α :=
  (List.range k).flatMap fun j => ((i.stateAt? handler r j).map f).getD []

theorem gather_zero (f : Run ω σ → List α) : i.gather handler r f 0 = [] :=
  rfl

theorem gather_succ (f : Run ω σ → List α) (k : Nat) :
    i.gather handler r f (k + 1) =
      i.gather handler r f k ++ ((i.stateAt? handler r k).map f).getD [] := by
  rw [gather, List.range_succ, List.flatMap_append, List.flatMap_singleton]
  rfl

/-- Where a run does not come to there is nothing to gather. -/
theorem gather_eq_of_none (f : Run ω σ → List α) {k n : Nat} (hkn : k ≤ n)
    (h : ∀ j, k ≤ j → i.stateAt? handler r j = none) :
    i.gather handler r f n = i.gather handler r f k := by
  induction n, hkn using Nat.le_induction with
  | base => rfl
  | succ n hkn ih =>
    rw [gather_succ, h n hkn, ih, Option.map_none, Option.getD_none, List.append_nil]

/-- The last instruction of a run is the last one at which something is gathered. -/
theorem gather_of_end (f : Run ω σ → List α) {k n : Nat} {rk : Run ω σ} {ending : Ending}
    (hk : i.stateAt? handler r k = some rk) (hend : i.step handler rk = (some ending, r'))
    (hkn : k < n) : i.gather handler r f n = i.gather handler r f k ++ f rk := by
  rw [gather_eq_of_none f hkn fun j hj => stateAt?_eq_none_of_end hk hend hj, gather_succ, hk,
    Option.map_some, Option.getD_some]

theorem gather_of_precompile (f : Run ω σ → List α) (n : Nat)
    (h : r.frame.precompile?.isSome) : i.gather handler r f n = [] := by
  have hnone (j : Nat) : i.stateAt? handler r j = none := by
    rw [Option.eq_none_iff_forall_ne_some]
    intro rj hj
    rw [precompile?_of_stateAt? hj] at h
    cases h
  rw [gather_eq_of_none f n.zero_le fun j _ => hnone j, gather_zero]

/-- An instruction leaves alone what is carried from pause to pause. -/
theorem step_carried (i : Interpreter) (handler : Handler σ) (r : Run ω σ) :
    (i.step handler r).2.carried = (i.afterPause handler r).carried := by
  rw [step_eq]
  cases (i.nextCall? handler r).bind HandlerCall.ending? with
  | some ending => rfl
  | none => simp only [dispatch_eq]; rfl

omit [BreakpointOracle ω] in
theorem runPrecompile_carried (routine : Precompile) (r : Run ω σ) :
    (runPrecompile routine r).2.carried = r.carried := by
  rw [runPrecompile_snd]
  rfl

/-- **Induction over the pauses of a run.**  What holds at the start of what is carried and of what
has been gathered, and is kept by every pause, holds before each instruction and at the end. -/
theorem pause_induction (i : Interpreter) (handler : Handler σ) (r : Run ω σ)
    (f : Run ω σ → List α) {P : List α → ω × σ × Bool → Prop}
    (start : P [] r.carried)
    (pause : ∀ k rk gathered, i.stateAt? handler r k = some rk → P gathered rk.carried →
      P (gathered ++ f rk) (i.afterPause handler rk).carried) :
    (∀ k rk, i.stateAt? handler r k = some rk → P (i.gather handler r f k) rk.carried) ∧
      ∀ n ending r', i.run handler n r = some (ending, r') →
        P (i.gather handler r f n) r'.carried := by
  have hbefore (k : Nat) (rk : Run ω σ) (hk : i.stateAt? handler r k = some rk) :
      P (i.gather handler r f k) rk.carried := by
    refine stateAt?_induction (P := fun k rk => P (i.gather handler r f k) rk.carried) hk start ?_
    intro j rj rj' hj hP hstep
    have hcarried := step_carried i handler rj
    rw [hstep] at hcarried
    rw [gather_succ, hj, Option.map_some, Option.getD_some, hcarried]
    exact pause j rj _ hj hP
  refine ⟨hbefore, ?_⟩
  intro n ending r' h
  cases hp : r.frame.precompile? with
  | some routine =>
    -- A precompiled routine makes no pause.
    rw [run_eq_precompile n hp] at h
    obtain ⟨-, rfl⟩ := Prod.mk.inj (Option.some.inj h)
    have hcarried : ((runPrecompile routine r.enter).2.leave
        (runPrecompile routine r.enter).1).carried = r.carried :=
      runPrecompile_carried routine r.enter
    rw [gather_of_precompile f n (by rw [hp]; rfl), hcarried]
    exact start
  | none =>
    obtain ⟨k, hkn, rk, rk', hk, hend, rfl⟩ := (run_eq_some_iff hp).mp h
    have hcarried : (rk'.leave ending).carried = (i.afterPause handler rk).carried := by
      have hstep := step_carried i handler rk
      rw [hend] at hstep
      exact hstep
    rw [gather_of_end f hk hend hkn, hcarried]
    exact pause k rk _ hk (hbefore k rk hk)

end Interpreter

end BytecodeDebugger
