import BytecodeDebugger.Proofs.Debugger.Operation
import BytecodeDebugger.Proofs.Handler.Release
import Mathlib.Algebra.BigOperators.Finprod

/-!
# The count of pauses at a line

A pause counts for a line if the position of the run comes from the line and the line has a
breakpoint when the instruction there is fetched (`PausePoint.CountsFor`).  Why the run pauses does
not matter, and neither does what becomes of the breakpoint during the pause or of the run after it.

`Interpreter.hits_afterPause` is the case of one pause.  `Debugger.hit_accounting` says that the
counts of a debugger are the numbers of the pauses that count for the lines, over whatever is done
with it; and as a run whose handler always continues pauses at breakpoints only, the handler has
counted all of them.
-/

namespace BytecodeDebugger

/-- A pause: where the run was, its line map when it fetched the instruction there, and why it
paused. -/
structure PausePoint where
  position : Nat
  /-- The line map at the fetch. -/
  map : LineMap
  reason : PauseReason

namespace PausePoint

/-- The position comes from the line, which had a breakpoint at the fetch. -/
def CountsFor (p : PausePoint) (line : Nat) : Prop :=
  p.map.line? p.position = some line ∧ line ∈ p.map.breakpointSet

instance (p : PausePoint) (line : Nat) : Decidable (p.CountsFor line) :=
  inferInstanceAs (Decidable (_ ∧ _))

/-- A pause counts for at most one line. -/
theorem CountsFor.eq {p : PausePoint} {line line' : Nat} (h : p.CountsFor line)
    (h' : p.CountsFor line') : line = line' :=
  Option.some.inj (h.1.symm.trans h'.1)

/-- Where each pause counts for a line, the counts of all lines together are the number of
pauses. -/
theorem finsum_countP {pauses : List PausePoint} (h : ∀ p ∈ pauses, ∃ line, p.CountsFor line) :
    (Function.support fun line => pauses.countP (·.CountsFor line)).Finite ∧
      ∑ᶠ line, pauses.countP (·.CountsFor line) = pauses.length := by
  induction pauses with
  | nil =>
    have hzero : (fun line => [].countP (fun p : PausePoint => p.CountsFor line)) =
        fun _ => 0 := rfl
    rw [hzero, finsum_zero]
    exact ⟨by simp, rfl⟩
  | cons p pauses ih =>
    obtain ⟨hfinite, hsum⟩ := ih fun q hq => h q (List.mem_cons_of_mem p hq)
    obtain ⟨counted, hcounted⟩ := h p List.mem_cons_self
    -- The first pause adds one at its own line and nothing anywhere else.
    have hother (line : Nat) (hline : line ≠ counted) : (if p.CountsFor line then 1 else 0) = 0 :=
      if_neg fun hp => hline (hp.eq hcounted)
    have hone : (Function.support fun line => if p.CountsFor line then 1 else 0).Finite := by
      refine (Set.finite_singleton counted).subset fun line hline => ?_
      by_contra hne
      exact hline (hother line hne)
    have hcons : (fun line => (p :: pauses).countP (·.CountsFor line)) = fun line =>
        pauses.countP (·.CountsFor line) + if p.CountsFor line then 1 else 0 := by
      funext line
      rw [List.countP_cons]
      simp only [decide_eq_true_eq]
    rw [hcons]
    refine ⟨(hfinite.union hone).subset (Function.support_add _ _), ?_⟩
    rw [finsum_add_distrib hfinite hone, hsum, finsum_eq_single _ counted hother, if_pos hcounted,
      List.length_cons]

end PausePoint

theorem LineBreakpoints.hits_recordHit (b : LineBreakpoints) (counted line : Nat) :
    (b.recordHit counted).hits line = b.hits line + if counted = line then 1 else 0 := by
  have hget : (b.recordHit counted).hits line =
      if compare counted line = .eq then b.hits counted + 1 else b.hits line :=
    Std.TreeMap.getD_insert
  rw [hget]
  by_cases h : counted = line
  · subst h
    simp
  · simp [h]

namespace Interpreter

variable {σ : Type} {i : Interpreter} {handler : Handler σ} {r r' : Run LineBreakpoints σ}

/-- The pause before the next instruction, if there is one. -/
def nextPause? (i : Interpreter) (handler : Handler σ) (r : Run LineBreakpoints σ) :
    Option PausePoint :=
  (i.nextCall? handler r).map fun c =>
    { position := r.frame.machine.position, map := r.oracle.map, reason := c.session.reason }

theorem hits_beginPause (reason : PauseReason) (hit : Hit) (r : Run LineBreakpoints σ)
    (line : Nat) : (beginPause reason hit r).oracle.hits line =
      r.oracle.hits line + if hit.isBreakpoint = true ∧ hit.line = some line then 1 else 0 := by
  -- Only a hit that has both a line and a breakpoint is counted.
  obtain ⟨position, _ | counted, _ | _⟩ := hit
  · rfl
  · simp [beginPause, Run.record]
  · simp [beginPause, Run.record]
  · have hrecord : (beginPause reason ⟨position, some counted, true⟩ r).oracle =
        r.oracle.recordHit counted := rfl
    rw [hrecord, LineBreakpoints.hits_recordHit]
    simp

/-- What the oracle makes of a position is what the pause there counts for. -/
theorem countsFor_iff (b : LineBreakpoints) (position : Nat) (reason : PauseReason) (line : Nat) :
    PausePoint.CountsFor ⟨position, b.map, reason⟩ line ↔
      (BreakpointOracle.check b position).isBreakpoint = true ∧
        (BreakpointOracle.check b position).line = some line := by
  change b.map.line? position = some line ∧ b.map.hasBreakpoint line = true ↔
    b.map.isBreakpoint position = true ∧ b.map.line? position = some line
  rw [LineMap.isBreakpoint]
  constructor
  · rintro ⟨hline, hbreak⟩
    rw [hline]
    exact ⟨hbreak, rfl⟩
  · rintro ⟨hbreak, hline⟩
    rw [hline] at hbreak
    exact ⟨hline, hbreak⟩

/-- **A pause is counted once**, for the line that it counts for, and nothing else is. -/
theorem hits_afterPause (i : Interpreter) (handler : Handler σ) (r : Run LineBreakpoints σ)
    (line : Nat) : (i.afterPause handler r).oracle.hits line =
      r.oracle.hits line + (i.nextPause? handler r).toList.countP (·.CountsFor line) := by
  cases h : i.nextCall? handler r with
  | none =>
    rw [afterPause, pause_of_no_call h, nextPause?, h]
    rfl
  | some c =>
    obtain ⟨reason, hr, -⟩ := nextCall?_eq_some_iff.mp h
    have hhits : (i.afterPause handler r).oracle.hits line =
        (beginPause reason (i.fetch r).1.hit (i.fetch r).2).oracle.hits line := by
      rw [afterPause, pause_of_call h hr, closeSession_oracle]
      rfl
    have hcounts := countsFor_iff r.oracle r.frame.machine.position c.session.reason line
    rw [hhits, hits_beginPause, nextPause?, h, Option.map_some, Option.toList_some,
      List.countP_singleton]
    simp only [decide_eq_true_eq, hcounts]
    rfl

/-- The handler that always continues counts the pause, and keeps the run from stepping.  A run that
is not stepping pauses at breakpoints only. -/
theorem afterPause_continueAlways {r : Run LineBreakpoints Nat} (hr : r.stepping = false) :
    (i.afterPause Handler.continueAlways r).stepping = false ∧
      (i.afterPause Handler.continueAlways r).handler =
        r.handler + (i.nextPause? Handler.continueAlways r).toList.length ∧
      ∀ p ∈ (i.nextPause? Handler.continueAlways r).toList, ∃ line, p.CountsFor line := by
  rw [afterPause_handler, nextPause?]
  cases hc : i.nextCall? Handler.continueAlways r with
  | none =>
    rw [afterPause_stepping (by rw [hc, Option.bind_none]), hc]
    exact ⟨rfl, rfl, fun p hp => absurd hp List.not_mem_nil⟩
  | some c =>
    obtain ⟨hgo, hstate, hrelease⟩ := nextCall?_continueAlways hc
    have hpause := nextCall?_isSome_iff.mp (Option.isSome_of_eq_some hc)
    obtain ⟨line, hline, hposition⟩ := hpause.resolve_left (by rw [hr]; simp)
    rw [afterPause_stepping (by rw [hc, Option.bind_some, hgo]), hc, Option.bind_some, hrelease]
    refine ⟨rfl, hstate, fun p hp => ?_⟩
    obtain rfl := Option.mem_some.mp (Option.mem_toList.mp hp)
    exact ⟨line, hposition, hline⟩

end Interpreter

namespace Debugger

open Interpreter

variable {σ : Type} {d d' : Debugger} {state state' : σ}

/-- The pauses of an operation, in order. -/
def Operation.pauses (d : Debugger) (state : σ) : Operation σ → List PausePoint
  | .setBreakpoint _ | .removeBreakpoint _ => []
  | .run handler frame journal steps =>
    d.interpreter.gather handler (d.start frame state journal)
      (fun r => (d.interpreter.nextPause? handler r).toList) steps

/-- The pauses of operations, one after another. -/
def pauses (d : Debugger) (state : σ) (operations : List (Operation σ)) : List PausePoint :=
  d.gather Operation.pauses state operations

theorem hits_perform? {operation : Operation σ}
    (h : d.perform? state operation = some (d', state')) (line : Nat) :
    d'.hits line = d.hits line + (operation.pauses d state).countP (·.CountsFor line) := by
  cases operation with
  | setBreakpoint added | removeBreakpoint removed =>
    obtain ⟨rfl, -⟩ := Prod.mk.inj (Option.some.inj h)
    rfl
  | run handler frame journal steps =>
    obtain ⟨stepping, hP⟩ := run_induction h
      (fun r => (d.interpreter.nextPause? handler r).toList)
      (P := fun gathered carried => carried.1.hits line =
        d.hits line + gathered.countP (·.CountsFor line))
      rfl fun k rk gathered _ hhits => by
        have hpause := hits_afterPause d.interpreter handler rk line
        change (d.interpreter.afterPause handler rk).oracle.hits line = _
        change rk.oracle.hits line = _ at hhits
        rw [List.countP_append]
        omega
    exact hP

/-- The counts are the numbers of the pauses that count. -/
theorem hits_performAll? {operations : List (Operation σ)}
    (h : d.performAll? state operations = some (d', state')) (line : Nat) :
    d'.hits line = d.hits line + (d.pauses state operations).countP (·.CountsFor line) := by
  refine performAll?_induction Operation.pauses
    (P := fun gathered d₁ _ => d₁.hits line = d.hits line + gathered.countP (·.CountsFor line))
    h rfl ?_
  intro operation _ gathered d₁ state₁ d₂ state₂ hhits hperform
  rw [hits_perform? hperform, hhits, List.countP_append]
  omega

/-! ### The handler that always continues -/

/-- An operation that is no run, or the run of a given handler. -/
def Operation.Uses (handler : Handler σ) : Operation σ → Prop
  | .setBreakpoint _ | .removeBreakpoint _ => True
  | .run handler' _ _ _ => handler' = handler

/-- The handler that always continues counts the pauses of a run, each of which counts for a
line. -/
theorem perform?_continueAlways {pauses pauses' : Nat} {operation : Operation Nat}
    (huses : operation.Uses Handler.continueAlways)
    (h : d.perform? pauses operation = some (d', pauses')) :
    pauses' = pauses + (operation.pauses d pauses).length ∧
      ∀ p ∈ operation.pauses d pauses, ∃ line, p.CountsFor line := by
  cases operation with
  | setBreakpoint added | removeBreakpoint removed =>
    obtain ⟨-, rfl⟩ := Prod.mk.inj (Option.some.inj h)
    exact ⟨rfl, fun p hp => absurd hp List.not_mem_nil⟩
  | run handler frame journal steps =>
    obtain rfl : handler = Handler.continueAlways := huses
    obtain ⟨stepping, -, hcount⟩ := run_induction h
      (fun r => (d.interpreter.nextPause? Handler.continueAlways r).toList)
      (P := fun gathered carried => carried.2.2 = false ∧
        carried.2.1 = pauses + gathered.length ∧ ∀ p ∈ gathered, ∃ line, p.CountsFor line)
      ⟨rfl, rfl, fun p hp => absurd hp List.not_mem_nil⟩
      fun k rk gathered _ ⟨hstepping, hhandler, hlines⟩ => by
        obtain ⟨hstepping', hhandler', hlines'⟩ :=
          afterPause_continueAlways (i := d.interpreter) hstepping
        change rk.handler = _ at hhandler
        refine ⟨hstepping', hhandler'.trans ?_,
          fun p hp => (List.mem_append.mp hp).elim (hlines p) (hlines' p)⟩
        rw [hhandler, List.length_append, Nat.add_assoc]
    exact hcount

theorem performAll?_continueAlways {pauses pauses' : Nat} {operations : List (Operation Nat)}
    (huses : ∀ operation ∈ operations, operation.Uses Handler.continueAlways)
    (h : d.performAll? pauses operations = some (d', pauses')) :
    pauses' = pauses + (d.pauses pauses operations).length ∧
      ∀ p ∈ d.pauses pauses operations, ∃ line, p.CountsFor line := by
  refine performAll?_induction Operation.pauses
    (P := fun gathered _ pauses₁ => pauses₁ = pauses + gathered.length ∧
      ∀ p ∈ gathered, ∃ line, p.CountsFor line)
    h ⟨rfl, fun p hp => absurd hp List.not_mem_nil⟩ ?_
  intro operation hmem gathered d₁ pauses₁ d₂ pauses₂ hbefore hperform
  obtain ⟨hcount, hlines⟩ := hbefore
  obtain ⟨hcount', hlines'⟩ := perform?_continueAlways (huses operation hmem) hperform
  refine ⟨?_, fun p hp => (List.mem_append.mp hp).elim (hlines p) (hlines' p)⟩
  rw [hcount', hcount, List.length_append]
  omega

/-- **The count of pauses.**  Whatever is done with a debugger, the count of a line grows by the
number of the pauses that come from the line while it has a breakpoint, each counted once.  If only
the handler that always continues is run, it has counted as many pauses as the counts of all lines
have grown by together. -/
theorem hit_accounting (d : Debugger) :
    (∀ (σ : Type) (state : σ) (operations : List (Operation σ)) (d' : Debugger) (state' : σ),
      d.performAll? state operations = some (d', state') → ∀ line,
      d'.hits line = d.hits line + (d.pauses state operations).countP (·.CountsFor line)) ∧
    ∀ (pauses : Nat) (operations : List (Operation Nat)) (d' : Debugger) (pauses' : Nat),
      (∀ operation ∈ operations, operation.Uses Handler.continueAlways) →
      d.performAll? pauses operations = some (d', pauses') →
      (Function.support fun line => d'.hits line - d.hits line).Finite ∧
        pauses' = pauses + ∑ᶠ line, (d'.hits line - d.hits line) := by
  refine ⟨fun σ state operations d' state' h line => hits_performAll? h line, ?_⟩
  intro pauses operations d' pauses' huses h
  obtain ⟨hcount, hlines⟩ := performAll?_continueAlways huses h
  obtain ⟨hfinite, hsum⟩ := PausePoint.finsum_countP hlines
  have hgrown : (fun line => d'.hits line - d.hits line) =
      fun line => (d.pauses pauses operations).countP (·.CountsFor line) := by
    funext line
    rw [hits_performAll? h line]
    omega
  rw [hgrown, hsum]
  exact ⟨hfinite, hcount⟩

/-- In the first run the step leads to a line with a breakpoint, which counts, and in the second to
the same line without one, which does not. -/
theorem hit_accounting_sum :
    let d := ofLineMap sumMap
    let operations : List (Operation Nat) := [.setBreakpoint 12,
      .run Handler.stepAlways sumFrame {} 5, .removeBreakpoint 12,
      .run Handler.stepAlways sumFrame {} 5]
    let continued : List (Operation Nat) := [.run Handler.continueAlways sumFrame {} 5,
      .setBreakpoint 10, .run Handler.continueAlways sumFrame {} 5]
    (d.pauses 0 operations).length = 4 ∧
      (∃ d' state', d.performAll? 0 operations = some (d', state') ∧
        d'.hits 11 = 2 ∧ d'.hits 12 = 1 ∧ d'.hits 10 = 0) ∧
      ∃ d' pauses', d.performAll? 0 continued = some (d', pauses') ∧ pauses' = 4 ∧
        ∑ᶠ line, (d'.hits line - d.hits line) = 4 := by
  intro d operations continued
  obtain ⟨hhits, hcontinued⟩ := hit_accounting d
  have hends : (d.performAll? 0 operations).isSome := by decide +kernel
  have hends' : (d.performAll? 0 continued).map (·.2) = some 4 := by decide +kernel
  obtain ⟨⟨d₁, state₁⟩, h₁⟩ := Option.isSome_iff_exists.mp hends
  obtain ⟨⟨d₂, pauses₂⟩, h₂, hfour⟩ := Option.map_eq_some_iff.mp hends'
  have hlines := hhits Nat 0 operations d₁ state₁ h₁
  have huses : ∀ operation ∈ continued, operation.Uses Handler.continueAlways :=
    List.forall_mem_cons.mpr ⟨rfl,
      List.forall_mem_cons.mpr ⟨trivial, List.forall_mem_singleton.mpr rfl⟩⟩
  obtain ⟨-, hsum⟩ := hcontinued 0 continued d₂ pauses₂ huses h₂
  refine ⟨by decide +kernel, ⟨d₁, state₁, h₁, ?_, ?_, ?_⟩, d₂, pauses₂, h₂, hfour, ?_⟩
  · exact (hlines 11).trans (by decide +kernel)
  · exact (hlines 12).trans (by decide +kernel)
  · exact (hlines 10).trans (by decide +kernel)
  · change pauses₂ = 4 at hfour
    omega

end Debugger

end BytecodeDebugger
