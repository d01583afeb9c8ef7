import BytecodeDebugger.Handler.Script
import BytecodeDebugger.Proofs.Run.Boundary
import BytecodeDebugger.Proofs.Run.Gather
import BytecodeDebugger.Proofs.Session.Entries

/-!
# A run in the journal

A run records its start and its end, and between them one block for each of its instructions
(`Block.entries`): the fetch, then the pause, if there is one, and then what is recorded during the
pause.  `Interpreter.afterPause_journal` is the case of one instruction, and
`Interpreter.run_bracket` that of a whole run, whichever way it ends.

A run that does not come to its end has failed, unless a precompiled routine has left its call in
another state than running (`Interpreter.not_failed_nor_at_fetched`).
-/

namespace BytecodeDebugger

variable {ω σ : Type}

/-- The entries that are made in the journal during a call of the handler, in order. -/
def HandlerCall.entries (c : HandlerCall σ) : List Entry :=
  c.dialogue.entries c.session

theorem HandlerCall.closed_journal (c : HandlerCall σ) :
    c.closed.journal = c.session.journal.addAll (c.entries.map Entry.event) :=
  c.dialogue.journal_run c.session

/-- The fetch of an instruction in the journal. -/
def Fetched.event (f : Fetched) : Event :=
  .fetched f.opcode (f.entry.map OpcodeEntry.mnemonic) f.position

/-- An instruction of a run in the journal: what was fetched, and the call of the handler in the
pause before it, if there was a pause. -/
structure Block (σ : Type) where
  fetched : Fetched
  call? : Option (HandlerCall σ)

namespace Block

/-- The entries of an instruction, in order. -/
def entries (b : Block σ) : List Entry :=
  .run b.fetched.event ::
    match b.call? with
    | some c => .run (.paused c.session.position c.session.line c.session.reason) :: c.entries
    | none => []

/-- A pause is where the oracle said, and what is recorded during it comes from the session and the
handler.  The session records the edits that succeeded and then, with the position of the pause, how
the pause was ended, if it was. -/
def WellFormed (b : Block σ) : Prop :=
  ∀ c, b.call? = some c → c.session.position = b.fetched.hit.position ∧
    (∀ e ∈ c.entries, e.isRun = false) ∧
    ∃ edits, c.entries.filterMap Entry.session? =
        edits ++ c.release?.toList.map (Event.released · c.session.position) ∧
      edits.map Event.edit? = c.edits.map some

end Block

namespace Interpreter

variable [BreakpointOracle ω] {i : Interpreter} {handler : Handler σ} {r r' : Run ω σ}

/-! ### One instruction -/

/-- The next instruction in the journal. -/
def nextBlock (i : Interpreter) (handler : Handler σ) (r : Run ω σ) : Block σ :=
  ⟨(i.fetch r).1, i.nextCall? handler r⟩

theorem nextBlock_wellFormed (i : Interpreter) (handler : Handler σ) (r : Run ω σ) :
    (i.nextBlock handler r).WellFormed := by
  intro c hc
  have hsuspended : c.session.resumption = none := nextCall?_suspended hc
  refine ⟨?_, c.dialogue.isRun_of_mem_entries c.session, c.dialogue.sessionEvents_eq hsuspended⟩
  obtain ⟨reason, -, rfl⟩ := nextCall?_eq_some_iff.mp hc
  rfl

theorem beginPause_journal (reason : PauseReason) (hit : Hit) (r : Run ω σ) :
    (beginPause reason hit r).journal = r.journal.add (.paused hit.position hit.line reason) := by
  unfold beginPause
  split <;> rfl

theorem closeSession_journal (how : HandlerEnd) (state : σ) (session : Session) (r : Run ω σ) :
    (closeSession how state session r).2.journal = session.journal := by
  unfold closeSession
  split <;> rfl

/-- **The fetch and the pause after it are recorded as a block.** -/
theorem afterPause_journal (i : Interpreter) (handler : Handler σ) (r : Run ω σ) :
    (i.afterPause handler r).journal =
      r.journal.addAll ((i.nextBlock handler r).entries.map Entry.event) := by
  unfold Block.entries nextBlock
  cases h : i.nextCall? handler r with
  | none =>
    rw [afterPause, pause_of_no_call h]
    rfl
  | some c =>
    obtain ⟨reason, hr, hc⟩ := nextCall?_eq_some_iff.mp h
    have hopened : c.session.journal =
        (i.fetch r).2.journal.add (.paused c.session.position c.session.line c.session.reason) := by
      rw [hc]
      exact beginPause_journal reason _ _
    rw [afterPause, pause_of_call h hr, closeSession_journal, c.closed_journal, hopened]
    rfl

theorem step_journal (i : Interpreter) (handler : Handler σ) (r : Run ω σ) :
    (i.step handler r).2.journal = (i.afterPause handler r).journal := by
  rw [step_eq]
  cases (i.nextCall? handler r).bind HandlerCall.ending? with
  | some ending => rfl
  | none => simp only [dispatch_eq]; rfl

/-! ### A whole run -/

/-- The instruction number `k` of a run in the journal. -/
def blockAt? (i : Interpreter) (handler : Handler σ) (r : Run ω σ) (k : Nat) : Option (Block σ) :=
  (i.fetchedAt? handler r k).map fun f => ⟨f, i.callAt? handler r k⟩

/-- The first `n` instructions of a run in the journal, as far as it comes. -/
def blocks (i : Interpreter) (handler : Handler σ) (r : Run ω σ) (n : Nat) : List (Block σ) :=
  (List.range n).filterMap (i.blockAt? handler r)

theorem blockAt?_eq (i : Interpreter) (handler : Handler σ) (r : Run ω σ) (k : Nat) :
    i.blockAt? handler r k = (i.stateAt? handler r k).map (i.nextBlock handler) := by
  unfold blockAt? fetchedAt? callAt?
  cases i.stateAt? handler r k <;> rfl

theorem blocks_eq_gather (i : Interpreter) (handler : Handler σ) (r : Run ω σ) (n : Nat) :
    i.blocks handler r n = i.gather handler r (fun rk => [i.nextBlock handler rk]) n := by
  induction n with
  | zero => rfl
  | succ n ih =>
    have hlast : [n].filterMap (i.blockAt? handler r) =
        ((i.stateAt? handler r n).map fun rk => [i.nextBlock handler rk]).getD [] := by
      rw [List.filterMap_cons, blockAt?_eq]
      cases i.stateAt? handler r n <;> rfl
    rw [gather_succ, ← ih, blocks, List.range_succ, List.filterMap_append, hlast]
    rfl

theorem blocks_succ {k : Nat} {rk : Run ω σ} (hk : i.stateAt? handler r k = some rk) :
    i.blocks handler r (k + 1) = i.blocks handler r k ++ [i.nextBlock handler rk] := by
  rw [blocks_eq_gather, gather_succ, ← blocks_eq_gather, hk, Option.map_some, Option.getD_some]

/-- The last block of a run is that of its last instruction. -/
theorem blocks_of_end {k n : Nat} {rk : Run ω σ} {ending : Ending}
    (hk : i.stateAt? handler r k = some rk) (hend : i.step handler rk = (some ending, r'))
    (hkn : k < n) :
    i.blocks handler r n = i.blocks handler r k ++ [i.nextBlock handler rk] := by
  rw [blocks_eq_gather, gather_of_end _ hk hend hkn, ← blocks_eq_gather]

/-- A pause that a run goes on after was ended. -/
theorem release?_of_mem_blocks {k : Nat} {rk : Run ω σ} (hk : i.stateAt? handler r k = some rk)
    {b : Block σ} (hb : b ∈ i.blocks handler r k) {c : HandlerCall σ} (hc : b.call? = some c) :
    c.release?.isSome := by
  obtain ⟨j, hj, hblock⟩ := List.mem_filterMap.mp hb
  -- The run comes to instruction `j + 1`, so its step at `j` did not end in the pause.
  obtain ⟨rj', hj'⟩ := exists_stateAt?_of_le hk (Nat.succ_le_of_lt (List.mem_range.mp hj))
  obtain ⟨rj, hrj, hstep⟩ := stateAt?_succ_eq_some_iff.mp hj'
  rw [blockAt?_eq, hrj] at hblock
  obtain rfl := Option.some.inj hblock
  have hcall : i.nextCall? handler rj = some c := hc
  have hgo := (step_eq_none_iff.mp hstep).1
  rw [hcall, Option.bind_some] at hgo
  exact ((c.ending?_eq_none_iff).mp hgo).2

/-- What a run records first. -/
def opening (r : Run ω σ) : Entry :=
  .run (.started r.frame.address r.frame.machine.position)

/-- What a run records last: how it leaves its call. -/
def closing (r : Run ω σ) : Entry :=
  .run (.ended r.frame.status r.frame.machine.position r.frame.machine.stack.depth)

/-- Before each instruction a run has recorded its start and the blocks so far. -/
theorem journal_of_stateAt? {k : Nat} {rk : Run ω σ} (hk : i.stateAt? handler r k = some rk) :
    rk.journal = r.journal.addAll
      ((opening r :: (i.blocks handler r k).flatMap Block.entries).map Entry.event) := by
  -- One more instruction adds its own block behind those so far.
  refine stateAt?_induction (P := fun k rk => rk.journal = r.journal.addAll
    ((opening r :: (i.blocks handler r k).flatMap Block.entries).map Entry.event)) hk rfl ?_
  intro j rj rj' hj hjournal hstep
  have hstepped := step_journal i handler rj
  rw [hstep] at hstepped
  rw [hstepped, afterPause_journal, hjournal, ← Journal.addAll_append, ← List.map_append,
    blocks_succ hj, List.flatMap_append, List.flatMap_singleton]
  rfl

/-- **The entries of a run that ends.** -/
theorem journal_of_run {n : Nat} {ending : Ending} (h : i.run handler n r = some (ending, r')) :
    ∃ body, r'.journal = r.journal.addAll ((opening r :: body ++ [closing r']).map Entry.event) ∧
      (r.frame.precompile?.isSome → body = [.run (.precompile r.frame.address)]) ∧
      (r.frame.precompile? = none → body = (i.blocks handler r n).flatMap Block.entries ∧
        i.blocks handler r n ≠ [] ∧
        ∀ b ∈ (i.blocks handler r n).dropLast, ∀ c, b.call? = some c → c.release?.isSome) := by
  cases hp : r.frame.precompile? with
  | some routine =>
    rw [run_eq_precompile n hp] at h
    obtain ⟨rfl, rfl⟩ := Prod.mk.inj (Option.some.inj h)
    refine ⟨[.run (.precompile r.frame.address)], ?_, fun _ => rfl, nofun⟩
    have hleave (r : Run ω σ) (ending : Ending) :
        (r.leave ending).journal = r.journal.add (closing (r.leave ending)).event := rfl
    rw [hleave, runPrecompile_snd]
    rfl
  | none =>
    -- The run ends in instruction `k`.  Its block is recorded whether it ends there in the pause
    -- or behind it.
    obtain ⟨k, hkn, rk, rk', hk, hend, rfl⟩ := (run_eq_some_iff hp).mp h
    have hblocks := blocks_of_end hk hend hkn
    have hstepped := step_journal i handler rk
    rw [hend] at hstepped
    have hjournal : rk'.journal = r.journal.addAll
        ((opening r :: (i.blocks handler r n).flatMap Block.entries).map Entry.event) := by
      rw [hstepped, afterPause_journal, journal_of_stateAt? hk, ← Journal.addAll_append,
        ← List.map_append, hblocks, List.flatMap_append, List.flatMap_singleton]
      rfl
    refine ⟨(i.blocks handler r n).flatMap Block.entries, ?_, ?_, fun _ => ⟨rfl, ?_, ?_⟩⟩
    · rw [List.map_append, Journal.addAll_append, ← hjournal]
      rfl
    · intro hsome
      cases hsome
    · rw [hblocks]
      simp
    · rw [hblocks, List.dropLast_concat]
      intro b hb c hc
      exact release?_of_mem_blocks hk hb hc

end Interpreter

end BytecodeDebugger
