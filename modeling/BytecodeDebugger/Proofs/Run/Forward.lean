import BytecodeDebugger.Proofs.Handler.Release
import BytecodeDebugger.Proofs.Run.Boundary

/-!
# Runs that go forward

An instruction leads to a greater position, unless it is a jump that goes to its own position or to
one before it (`OpcodeTable.position_lt_of_plainStep`).  A run without such a jump gets through its
code at least one byte at a time, and the instruction beyond the end of the code is the last one
(`Interpreter.le_of_stateAt?`).

So only backward jumps can make a run long: `Interpreter.run_forward` bounds a run without them, and
says that there are none if the listing of the code has no jump.
-/

namespace BytecodeDebugger

namespace OpcodeTable

variable {m m' : Machine}

/-- An entry of a listing has the name that the table gives its opcode. -/
theorem mnemonic_of_mem_listFrom (t : OpcodeTable) {start skipped : Nat} {rest : List UInt8}
    {entry : ListedInstruction} (h : entry ∈ t.listFrom start skipped rest) :
    entry.mnemonic = t.mnemonic entry.opcode := by
  fun_induction listFrom t start skipped rest with
  | case1 => exact absurd h List.not_mem_nil
  | case2 start skipped first rest ih => exact ih h
  | case3 start first rest size ih =>
    rcases List.mem_cons.mp h with rfl | hrest
    · rfl
    · exact ih hrest

/-- **An instruction leads forward**, but for a jump that goes to its own position or to one before
it. -/
theorem position_lt_of_plainStep (h : reference.plainStep m = (.ok .proceed, m'))
    (hsize : m.code.size ≤ maxPosition)
    (hforward : ∀ x target, Instruction.ofOpcode? m.fetch.1 = some x →
      x.target? m.stack.words = some target → m.position < target) :
    m.position < m.code.size ∧ m.position < m'.position := by
  obtain ⟨opcode, x, hbyte, hx, hrun⟩ := plainStep_proceed h
  have hlt : m.position < m.code.size := (getElem?_eq_some_iff.mp hbyte).1
  have hcode := Instruction.code_of_execute hrun
  refine ⟨hlt, ?_⟩
  cases htarget : x.target? m.stack.words with
  | some target =>
    rw [htarget] at hcode
    have hfetch : Instruction.ofOpcode? m.fetch.1 = some x := by
      rw [Machine.fetch_of_some hbyte]
      exact hx
    show m.position < m'.code.cursor
    rw [hcode.2]
    exact hforward x target hfetch htarget
  | none =>
    rw [htarget] at hcode
    show m.position < m'.code.cursor
    rw [hcode]
    by_cases hzero : x.immediateSize = 0
    · rw [if_pos hzero]
      exact Nat.lt_succ_self m.position
    · -- The cursor may stop at its greatest value, but that is behind the opcode still.
      rw [if_neg hzero]
      show m.position < advance (m.position + 1) x.immediateSize
      rw [advance, saturatingAdd]
      omega

end OpcodeTable

namespace Interpreter

variable {ω σ : Type} [BreakpointOracle ω] {i : Interpreter} {handler : Handler σ} {r r' : Run ω σ}

/-- The instruction number `j` is a jump that goes to its own position or to one before it. -/
def JumpsBackAt (i : Interpreter) (handler : Handler σ) (r : Run ω σ) (j : Nat) : Prop :=
  ∃ rj x target, i.stateAt? handler r j = some rj ∧ (i.stateAt? handler r (j + 1)).isSome ∧
    Instruction.ofOpcode? (i.fetch rj).1.opcode = some x ∧
    x.target? rj.frame.machine.stack.words = some target ∧ target ≤ rj.frame.machine.position

/-- From an instruction that does not jump back the run goes forward. -/
theorem position_lt_of_not_jumpsBackAt (hi : i.opcodes = .reference)
    (hsize : r.frame.machine.code.size ≤ maxPosition) {j : Nat} {rj rj' : Run ω σ}
    (hj : i.stateAt? handler r j = some rj) (hj' : i.stateAt? handler r (j + 1) = some rj')
    (hforward : ¬ i.JumpsBackAt handler r j) :
    rj.frame.machine.position < r.frame.machine.code.size ∧
      rj.frame.machine.position < rj'.frame.machine.position := by
  obtain ⟨rj₀, hrj₀, hstep⟩ := stateAt?_succ_eq_some_iff.mp hj'
  obtain rfl := Option.some.inj (hj.symm.trans hrj₀)
  have hcode : rj.frame.machine.code.size = r.frame.machine.code.size := by
    rw [Code.size, Code.size, bytes_of_stateAt? hi hj]
  have hplain := step_machine_of_proceed hstep
  rw [hi] at hplain
  rw [← hcode] at hsize ⊢
  refine OpcodeTable.position_lt_of_plainStep hplain hsize fun x target hx htarget => ?_
  refine Nat.lt_of_not_le fun hback => hforward ?_
  exact ⟨rj, x, target, hj, by rw [hj']; rfl, hx, htarget, hback⟩

/-- The positions of the instructions increase as long as none of them has jumped back. -/
theorem position_lt_of_lt (hi : i.opcodes = .reference)
    (hsize : r.frame.machine.code.size ≤ maxPosition) {j k : Nat} {rj rk : Run ω σ}
    (hj : i.stateAt? handler r j = some rj) (hk : i.stateAt? handler r k = some rk) (hjk : j < k)
    (hforward : ∀ l < k, ¬ i.JumpsBackAt handler r l) :
    rj.frame.machine.position < rk.frame.machine.position := by
  induction k generalizing rk with
  | zero => exact absurd hjk (Nat.not_lt_zero j)
  | succ k ih =>
    obtain ⟨rk', hk', -⟩ := stateAt?_succ_eq_some_iff.mp hk
    have hlast := position_lt_of_not_jumpsBackAt hi hsize hk' hk (hforward k k.lt_succ_self)
    rcases Nat.lt_succ_iff_lt_or_eq.mp hjk with hlt | rfl
    · have hrest := ih hk' hlt fun l hl => hforward l (Nat.lt_succ_of_lt hl)
      exact hrest.trans hlast.2
    · obtain rfl := Option.some.inj (hj.symm.trans hk')
      exact hlast.2

/-- **The measure**: a run that has not jumped back has come on by at least as many bytes as it has
carried out instructions. -/
theorem add_le_position (hi : i.opcodes = .reference)
    (hsize : r.frame.machine.code.size ≤ maxPosition) {k : Nat} {rk : Run ω σ}
    (hk : i.stateAt? handler r k = some rk) (hforward : ∀ j < k, ¬ i.JumpsBackAt handler r j) :
    r.frame.machine.position + k ≤ rk.frame.machine.position := by
  induction k generalizing rk with
  | zero =>
    obtain ⟨-, rfl⟩ := stateAt?_zero_eq_some_iff.mp hk
    exact Nat.le_refl _
  | succ k ih =>
    obtain ⟨rk', hk', -⟩ := stateAt?_succ_eq_some_iff.mp hk
    have hrest := ih hk' fun j hj => hforward j (Nat.lt_succ_of_lt hj)
    have hlast := (position_lt_of_not_jumpsBackAt hi hsize hk' hk (hforward k k.lt_succ_self)).2
    omega

/-- No run without a backward jump fetches more instructions than there are bytes from its start on,
and the end of the code. -/
theorem le_of_stateAt? (hi : i.opcodes = .reference)
    (hsize : r.frame.machine.code.size ≤ maxPosition) {k : Nat} {rk : Run ω σ}
    (hk : i.stateAt? handler r k = some rk) (hforward : ∀ j < k, ¬ i.JumpsBackAt handler r j) :
    k ≤ r.frame.machine.code.size - r.frame.machine.position := by
  cases k with
  | zero => exact Nat.zero_le _
  | succ k =>
    -- The instruction before this one stood inside the code.
    obtain ⟨rk', hk', -⟩ := stateAt?_succ_eq_some_iff.mp hk
    have hlast := (position_lt_of_not_jumpsBackAt hi hsize hk' hk (hforward k k.lt_succ_self)).1
    have hmeasure := add_le_position hi hsize hk' fun j hj => hforward j (Nat.lt_succ_of_lt hj)
    omega

/-- A run comes to its end or fails with its machine, after at most so many instructions. -/
def EndsWithin (i : Interpreter) (handler : Handler σ) (r : Run ω σ) (bound : Nat) : Prop :=
  (∃ ending r', i.run handler bound r = some (ending, r') ∧
    (ending = .completed ∨ ∃ fault, ending = .failed (.machine fault))) ∧
  ∀ k, (i.fetchedAt? handler r k).isSome → k < bound

theorem endsWithin_of_forward (hi : i.opcodes = .reference)
    (hsize : r.frame.machine.code.size ≤ maxPosition)
    (hreleases : ∀ k c, i.callAt? handler r k = some c → c.ending? = none)
    (hforward : ∀ j, ¬ i.JumpsBackAt handler r j) :
    i.EndsWithin handler r (r.frame.machine.code.size - r.frame.machine.position + 1) := by
  have hrun : ∃ ending r', i.run handler
      (r.frame.machine.code.size - r.frame.machine.position + 1) r = some (ending, r') := by
    cases hprecompile : r.frame.precompile? with
    | some routine => exact ⟨_, _, run_eq_precompile _ hprecompile⟩
    | none =>
      cases hrun : i.run handler (r.frame.machine.code.size - r.frame.machine.position + 1) r with
      | some x => exact ⟨x.1, x.2, rfl⟩
      | none =>
        obtain ⟨rn, hn⟩ := (run_eq_none_iff hprecompile).mp hrun
        have hle := le_of_stateAt? hi hsize hn fun j _ => hforward j
        omega
  refine ⟨?_, fun k hk => ?_⟩
  · obtain ⟨ending, r', hrun⟩ := hrun
    refine ⟨ending, r', hrun, ?_⟩
    rcases run_ending_cases hrun with hdone | hfault | ⟨k, c, hc, hend⟩
    · exact Or.inl hdone
    · exact Or.inr hfault
    · rw [hreleases k c hc] at hend
      cases hend
  · obtain ⟨f, hf⟩ := Option.isSome_iff_exists.mp hk
    obtain ⟨rk, hrk, -⟩ := Option.map_eq_some_iff.mp hf
    exact Nat.lt_succ_of_le (le_of_stateAt? hi hsize hrk fun j _ => hforward j)

/-- Where the listing of the code has no jump, a run from its beginning takes none. -/
theorem not_jumpsBackAt_of_listing (hi : i.opcodes = .reference)
    (hsize : r.frame.machine.code.size ≤ maxPosition)
    (hlisting : ∀ entry ∈ OpcodeTable.reference.disassemble r.frame.machine.code.bytes,
      entry.mnemonic ≠ "JUMP" ∧ entry.mnemonic ≠ "JUMPI")
    (hstart : r.frame.machine.position = 0) (j : Nat) : ¬ i.JumpsBackAt handler r j := by
  rintro ⟨rj, x, target, hj, -, hx, htarget, -⟩
  have hboundary : Code.OnBoundary r.frame.machine.code.bytes rj.frame.machine.position := by
    refine onBoundary_of_stateAt? hi hsize hj (Or.inl (Or.inr ?_))
    rw [hstart]
    exact Code.starts_zero _
  rw [← bytes_of_stateAt? hi hj] at hboundary hlisting
  rcases listed_of_onBoundary hi hboundary with ⟨-, hstop, -⟩ | ⟨entry, hentry, -, hopcode⟩
  · rw [hstop] at hx
    obtain rfl : Instruction.stop = x := Option.some.inj hx
    cases htarget
  · have hmnemonic : entry.mnemonic = x.mnemonic := by
      rw [OpcodeTable.mnemonic_of_mem_listFrom _ hentry, OpcodeTable.mnemonic, hopcode,
        OpcodeTable.reference, OpcodeTable.get?_assign, hx]
      rfl
    obtain ⟨hjump, hjumpi⟩ := hlisting entry hentry
    rw [hmnemonic] at hjump hjumpi
    cases x with
    | jump => exact hjump rfl
    | jumpi => exact hjumpi rfl
    | _ => cases htarget

/-- **Only backward jumps can make a run long.**  With the usual table, and a handler whose calls
all let the run go on, the positions of the instructions increase as long as none of them has jumped
to its own position or to one before it.  A run that never does comes to its end or fails with its
machine, and fetches at most one instruction for each byte from its start on, and one for the end of
the code.  No run from the beginning does if the listing of the code has no jump.  (The size of a
code is a position.) -/
theorem run_forward (i : Interpreter) (hi : i.opcodes = .reference) (handler : Handler σ)
    (r : Run ω σ) (hsize : r.frame.machine.code.size ≤ maxPosition)
    (hreleases : ∀ k c, i.callAt? handler r k = some c → c.ending? = none) :
    (∀ k, (∀ j < k, ¬ i.JumpsBackAt handler r j) → ∀ j j' f f', j < j' → j' ≤ k →
      i.fetchedAt? handler r j = some f → i.fetchedAt? handler r j' = some f' →
      f.position < f'.position) ∧
    ((∀ j, ¬ i.JumpsBackAt handler r j) →
      i.EndsWithin handler r (r.frame.machine.code.size - r.frame.machine.position + 1)) ∧
    ((∀ entry ∈ OpcodeTable.reference.disassemble r.frame.machine.code.bytes,
        entry.mnemonic ≠ "JUMP" ∧ entry.mnemonic ≠ "JUMPI") →
      r.frame.machine.position = 0 →
      i.EndsWithin handler r (r.frame.machine.code.size + 1)) := by
  refine ⟨fun k hforward j j' f f' hjj' hj'k hf hf' => ?_, endsWithin_of_forward hi hsize hreleases,
    fun hlisting hstart => ?_⟩
  · obtain ⟨rj, hj, rfl⟩ := Option.map_eq_some_iff.mp hf
    obtain ⟨rj', hj', rfl⟩ := Option.map_eq_some_iff.mp hf'
    exact position_lt_of_lt hi hsize hj hj' hjj' fun l hl => hforward l (hl.trans_le hj'k)
  · have hends := endsWithin_of_forward hi hsize hreleases
      (not_jumpsBackAt_of_listing hi hsize hlisting hstart)
    rwa [hstart, Nat.sub_zero] at hends

/-- The sum has no jump, and ends within its six bytes although the run pauses at every instruction
from the addition on. -/
theorem run_forward_sum : EndsWithin {} Handler.stepAlways sumRun 7 := by
  have hreleases : ∀ k c, callAt? {} Handler.stepAlways sumRun k = some c → c.ending? = none := by
    intro k c hc
    obtain ⟨rk, -, hcall⟩ := callAt?_eq_some_iff.mp hc
    have hends : c.dialogue.EndsPause (fun _ => True) 1 c.session := by
      rw [nextCall?_dialogue hcall]
      exact .resume (nextCall?_suspended hcall) .step trivial
    exact ending?_of_endsPause (nextCall?_suspended hcall) hends
  exact (run_forward {} rfl Handler.stepAlways sumRun (by decide) hreleases).2.2 (by decide) rfl

end Interpreter

end BytecodeDebugger
