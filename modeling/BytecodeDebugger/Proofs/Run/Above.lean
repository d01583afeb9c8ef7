import BytecodeDebugger.Proofs.Instruction.Above
import BytecodeDebugger.Proofs.Run.Pause
import BytecodeDebugger.Proofs.Run.Plain

/-!
# Runs and the words below

A run that does not pause, and does not fail for the number of words on its stack, does not hang on
what lies below that stack.  With more words there it stands before the same instructions on the
same machines, but for the words below (`Interpreter.stateAt?_above`), and ends in the same way,
with the words below as they were (`Interpreter.run_above`).  All that it takes is that there is
room for them on the stack at all times.
-/

namespace BytecodeDebugger

namespace OpcodeTable

variable {instruction? : UInt8 → Option Instruction} {below : List Word} {m m' : Machine}

/-- **One instruction** of the plain loop does the same with more words below the stack. -/
theorem plainStep_above {result : Except Fault Flow}
    (h : (assign instruction?).plainStep m = (result, m'))
    (hfault : ∀ fault, result = .error fault → ¬ fault.OfStack)
    (hroom : m'.stack.HasRoom below.length) :
    (assign instruction?).plainStep (m.above below) = (result, m'.above below) := by
  have hlocal : ((assign instruction?).behaviour m.fetch.1).Local (Stack.HasRoom below.length)
      below := by
    rw [behaviour_assign]
    cases instruction? m.fetch.1 with
    | none => exact Action.local_throw _
    | some x => exact x.local_execute
  exact hlocal m.fetch.2 result m' h hfault hroom

end OpcodeTable

/-- The run with more words below those on its stack. -/
def Run.above {ω σ : Type} (r : Run ω σ) (below : List Word) : Run ω σ :=
  r.withMachine (r.frame.machine.above below)

namespace Interpreter

variable {ω σ : Type} [BreakpointOracle ω] {i : Interpreter} {handler : Handler σ} {r r' : Run ω σ}
  {instruction? : UInt8 → Option Instruction} {below : List Word}

/-- What is fetched does not hang on the stack, and neither does whether there is a pause. -/
theorem fetch_above (i : Interpreter) (r : Run ω σ) (below : List Word) :
    i.fetch (r.above below) = ((i.fetch r).1, (i.fetch r).2.above below) :=
  rfl

theorem nextCall?_above (h : i.nextCall? handler r = none) :
    i.nextCall? handler (r.above below) = none := by
  rw [nextCall?_eq_none_iff] at h ⊢
  rw [fetch_above, h]

/-- **One step**: without a pause, the run goes on or ends as it does without the words below. -/
theorem step_above (hi : i.opcodes = .assign instruction?) {ending? : Option Ending}
    (hcall : i.nextCall? handler r = none) (h : i.step handler r = (ending?, r'))
    (hending : ∀ fault, ending? = some (.failed (.machine fault)) → ¬ fault.OfStack)
    (hroom : r'.frame.machine.stack.HasRoom below.length) :
    i.step handler (r.above below) = (ending?, r'.above below) := by
  rw [step_of_no_call hcall] at h
  obtain ⟨rfl, rfl⟩ := Prod.mk.inj h
  have hfault : ∀ fault, (i.opcodes.plainStep r.frame.machine).1 = .error fault →
      ¬ fault.OfStack := by
    intro fault herror
    refine hending fault ?_
    rw [herror]
    rfl
  rw [hi] at hfault hroom
  have hplain := OpcodeTable.plainStep_above rfl hfault hroom
  have hmachine : (r.above below).frame.machine = r.frame.machine.above below := rfl
  rw [step_of_no_call (nextCall?_above hcall), fetch_above, hmachine, hi, hplain]
  rfl

/-- **A run up to an instruction**: it stands where it stands without the words below. -/
theorem stateAt?_above_of_some (hi : i.opcodes = .assign instruction?)
    (hpauses : ∀ k, i.callAt? handler r k = none)
    (hroom : ∀ k rk, i.stateAt? handler r k = some rk →
      rk.frame.machine.stack.HasRoom below.length)
    {k : Nat} {rk : Run ω σ} (hk : i.stateAt? handler r k = some rk) :
    i.stateAt? handler (r.above below) k = some (rk.above below) := by
  induction k generalizing rk with
  | zero =>
    obtain ⟨hprecompile, rfl⟩ := stateAt?_zero_eq_some_iff.mp hk
    exact stateAt?_zero_eq_some_iff.mpr ⟨hprecompile, rfl⟩
  | succ k ih =>
    obtain ⟨rk', hk', hstep⟩ := stateAt?_succ_eq_some_iff.mp hk
    have hcall : i.nextCall? handler rk' = none := by
      rw [← callAt?_of_stateAt? hk']
      exact hpauses k
    have hstep' := step_above hi hcall hstep (fun _ herror => by cases herror) (hroom _ _ hk)
    exact stateAt?_succ_eq_some_iff.mpr ⟨rk'.above below, ih hk', hstep'⟩

/-- **A run up to its end**, and beyond: it comes no farther than without the words below. -/
theorem stateAt?_above (hi : i.opcodes = .assign instruction?)
    (hpauses : ∀ k, i.callAt? handler r k = none)
    (hroom : ∀ k rk, i.stateAt? handler r k = some rk →
      rk.frame.machine.stack.HasRoom below.length)
    {last : Nat} {rl rl' : Run ω σ} {ending : Ending} (hl : i.stateAt? handler r last = some rl)
    (hend : i.step handler (rl.above below) = (some ending, rl')) (k : Nat) :
    i.stateAt? handler (r.above below) k = (i.stateAt? handler r k).map (·.above below) := by
  cases hk : i.stateAt? handler r k with
  | some rk => exact stateAt?_above_of_some hi hpauses hroom hk
  | none =>
    have hlast : last < k := by
      by_contra hle
      obtain ⟨rk, hrk⟩ := exists_stateAt?_of_le hl (Nat.le_of_not_lt hle)
      rw [hk] at hrk
      cases hrk
    exact stateAt?_eq_none_of_end (stateAt?_above_of_some hi hpauses hroom hl) hend hlast

/-- **Locality of runs.**  Take a run whose table assigns instructions to bytes, that goes to no
precompiled routine, does not pause, and comes to its end or fails, but not for too few or too many
words on its stack.  If it never has more than `d` words there, then with any words below its stack
that leave room for `d` more it fetches the same instructions at the same positions in the same
order, and ends in the same way after as many steps, with the same frame but for the stack, which is
the one of the first run on top of the words below. -/
theorem run_above (i : Interpreter) {instruction? : UInt8 → Option Instruction}
    (hi : i.opcodes = .assign instruction?) (handler : Handler σ) (r r' : Run ω σ)
    (hprecompile : r.frame.precompile? = none) (hpauses : ∀ k, i.callAt? handler r k = none)
    {n : Nat} {ending : Ending} (h : i.run handler n r = some (ending, r'))
    (hending : ∀ fault, ending = .failed (.machine fault) → ¬ fault.OfStack) {d : Nat}
    (hdepth : ∀ k rk, i.stateAt? handler r k = some rk → rk.frame.machine.stack.depth ≤ d)
    (hdepth' : r'.frame.machine.stack.depth ≤ d) (below : List Word)
    (hbelow : below.length + d ≤ Stack.limit) :
    (∀ k, i.fetchedAt? handler (r.above below) k = i.fetchedAt? handler r k ∧
      i.callAt? handler (r.above below) k = none) ∧
    ∃ r'', i.run handler n (r.above below) = some (ending, r'') ∧
      r''.frame = (r'.above below).frame := by
  have hfits {s : Stack} (hs : s.depth ≤ d) : s.HasRoom below.length := by
    rw [Stack.HasRoom]
    omega
  have hroom : ∀ k rk, i.stateAt? handler r k = some rk →
      rk.frame.machine.stack.HasRoom below.length := fun k rk hk => hfits (hdepth k rk hk)
  obtain ⟨last, hlast, rl, rl', hl, hstep, rfl⟩ := (run_eq_some_iff hprecompile).mp h
  have hcall : i.nextCall? handler rl = none := by
    rw [← callAt?_of_stateAt? hl]
    exact hpauses last
  have hend : i.step handler (rl.above below) = (some ending, rl'.above below) :=
    step_above hi hcall hstep (fun fault hfault => hending fault (Option.some.inj hfault))
      (hfits hdepth')
  have hstates := stateAt?_above hi hpauses hroom hl hend
  refine ⟨fun k => ⟨?_, ?_⟩, (rl'.above below).leave ending, ?_, rfl⟩
  · rw [fetchedAt?, fetchedAt?, hstates, Option.map_map]
    rfl
  · have hk := hpauses k
    rw [callAt?, Option.bind_eq_none_iff] at hk ⊢
    intro rk hrk
    rw [hstates] at hrk
    obtain ⟨rk', hrk', rfl⟩ := Option.map_eq_some_iff.mp hrk
    exact nextCall?_above (hk rk' hrk')
  · have hprecompile' : (r.above below).frame.precompile? = none := hprecompile
    rw [run_eq_some_iff hprecompile']
    have hl' : i.stateAt? handler (r.above below) last = some (rl.above below) := by
      rw [hstates, hl]
      rfl
    exact ⟨last, hlast, rl.above below, rl'.above below, hl', hend, rfl⟩

/-- The call of a program that adds the second of the two words on its stack to the first, and fails
with a jump to nowhere. -/
def strayRun : Run LineBreakpoints Nat where
  frame := {
    machine := {
      code := { bytes := ⟨#[0x81, 0x90, 0x01, 0x60, 9, 0x56]⟩ }
      stack := ⟨[3, 4]⟩ } }
  oracle := {}
  handler := 0

/-- The program fails in the same way with so many words below that they fill the stack. -/
theorem run_above_stray :
    ∃ r'', run {} Handler.continueAlways 5 (strayRun.above (List.replicate 1021 8)) =
        some (.failed (.machine (.invalidJump 9)), r'') ∧
      r''.frame.machine.stack.words = [7, 4] ++ List.replicate 1021 8 ∧
      (fetchedAt? {} Handler.continueAlways (strayRun.above (List.replicate 1021 8)) 4).map
        Fetched.position = some 5 := by
  have hdone : (run {} Handler.continueAlways 5 strayRun).map (fun x =>
      (x.1, x.2.frame.machine.stack.words)) =
        some (.failed (.machine (.invalidJump 9)), [7, 4]) := by decide +kernel
  obtain ⟨⟨ending, r'⟩, hrun, heq⟩ := Option.map_eq_some_iff.mp hdone
  obtain ⟨rfl, hwords⟩ := Prod.mk.inj heq
  have hending : ∀ fault, Ending.failed (.machine (.invalidJump 9)) = .failed (.machine fault) →
      ¬ fault.OfStack := by
    rintro _ ⟨⟩
    exact id
  have hdepth : ∀ k rk, stateAt? {} Handler.continueAlways strayRun k = some rk →
      rk.frame.machine.stack.depth ≤ 3 := by
    intro k rk hk
    have hlt : k < 5 := by
      by_contra hge
      have hnone := (run_eq_none_iff rfl).mpr (exists_stateAt?_of_le hk (Nat.le_of_not_lt hge))
      rw [hrun] at hnone
      cases hnone
    have hdepths : ∀ k < 5, ((stateAt? {} Handler.continueAlways strayRun k).map
        fun rk => rk.frame.machine.stack.depth).all (· ≤ 3) = true := by decide +kernel
    have hle := hdepths k hlt
    rw [hk] at hle
    exact of_decide_eq_true hle
  have hdepth' : r'.frame.machine.stack.depth ≤ 3 := by
    rw [Stack.depth, hwords]
    decide
  have hpauses : ∀ k, callAt? {} Handler.continueAlways strayRun k = none :=
    callAt?_eq_none_of_no_breakpoints rfl
      (Set.eq_empty_of_forall_notMem fun _ hline => by cases hline)
  obtain ⟨hfetched, r'', hrun'', hframe⟩ := run_above {} rfl Handler.continueAlways strayRun r' rfl
    hpauses hrun hending hdepth hdepth' (List.replicate 1021 8)
    (by rw [List.length_replicate]; decide)
  refine ⟨r'', hrun'', ?_, ?_⟩
  · have hwords'' : r''.frame.machine.stack.words =
        r'.frame.machine.stack.words ++ List.replicate 1021 8 := by
      rw [hframe]
      rfl
    rw [hwords'', hwords]
  · rw [(hfetched 4).1]
    decide +kernel

end Interpreter

end BytecodeDebugger
