import BytecodeDebugger.Proofs.Run.Bracket

/-!
# Where a run ends

A run that ends by itself ends with the last instruction that it fetches.  That instruction is found
in the listing, in the session of the pause before it, and in the journal, with the position that it
was fetched from (`Interpreter.IsLast`).  The cursor is behind it by then: behind its opcode, and if
it is a push that found the stack full, behind its immediate (`Fetched.behind`).  Only the
instruction beyond the end of the code leaves the cursor where it is.

`OpcodeTable.position_of_end` is the case of one instruction, and `Interpreter.exists_isLast` that
of a whole run.
-/

namespace BytecodeDebugger

/-- The position behind an instruction that was fetched from a code of the given size.  A byte that
is no instruction has no immediate. -/
def Fetched.behind (f : Fetched) (size : Nat) : Nat :=
  if f.position < size then
    f.position + 1 + ((Instruction.ofOpcode? f.opcode).map Instruction.immediateSize).getD 0
  else f.position

/-! ### One instruction -/

namespace OpcodeTable

variable {m m' : Machine} {result : Except Fault Flow}

/-- **The instruction that a program ends with** has the cursor behind it. -/
theorem position_of_end (hsize : m.code.size ≤ Bytes.maxSize)
    (h : reference.plainStep m = (result, m')) (hend : result ≠ .ok .proceed) :
    m'.position = if m.position < m.code.size then
        m.position + 1 +
          ((Instruction.ofOpcode? m.fetch.1).map Instruction.immediateSize).getD 0
      else m.position := by
  cases hbyte : m.code.bytes[m.position]? with
  | none =>
    have hbeyond : ¬ m.position < m.code.size := (getElem?_eq_none_iff m.code.bytes _).mp hbyte
    rw [plainStep_of_none hbyte] at h
    obtain ⟨-, rfl⟩ := Prod.mk.inj h
    rw [if_neg hbeyond]
  | some opcode =>
    have hlt : m.position < m.code.size := (getElem?_eq_some_iff.mp hbyte).1
    rw [plainStep_of_some hbyte, reference, behaviour_assign] at h
    rw [if_pos hlt, Machine.fetch_of_some hbyte]
    show m'.position =
      m.position + 1 + ((Instruction.ofOpcode? opcode).map Instruction.immediateSize).getD 0
    cases hx : Instruction.ofOpcode? opcode with
    | none =>
      rw [hx] at h
      obtain ⟨-, rfl⟩ := Prod.mk.inj h
      rfl
    | some x =>
      rw [hx] at h
      have hmax := Bytes.maxSize_add_le
      have himmediate := x.immediateSize_le
      refine Instruction.position_of_end ?_ ?_ h hend
      · show m.code.size ≤ maxPosition
        omega
      · show m.position + 1 + x.immediateSize ≤ maxPosition
        omega

/-- A push that a program ends with has found the stack full. -/
theorem result_of_push_end {index : Fin 8} (hsize : m.code.size ≤ Bytes.maxSize)
    (h : reference.plainStep m = (result, m')) (hend : result ≠ .ok .proceed)
    (hpush : Instruction.ofOpcode? m.fetch.1 = some (.push index)) :
    result = .error (.stackOverflow Stack.limit) := by
  have hmax := Bytes.maxSize_add_le
  have hcode : m.fetch.2.code.size ≤ maxPosition := by
    rw [Code.size, Machine.fetch, m.code.next_bytes]
    show m.code.size ≤ maxPosition
    omega
  rw [plainStep, reference, behaviour_assign, hpush] at h
  change (Instruction.push index).execute.run m.fetch.2 = (result, m') at h
  rw [Instruction.run_push hcode] at h
  split_ifs at h
  · exact absurd (Prod.mk.inj h).1.symm hend
  · exact (Prod.mk.inj h).1.symm

end OpcodeTable

/-! ### A whole run -/

namespace Interpreter

variable {ω σ : Type} [BreakpointOracle ω] {i : Interpreter} {handler : Handler σ} {r r' : Run ω σ}

/-- The instruction number `k` of a run is the last one, and the listing, the pause before it and
the journal that the run leaves all have its position. -/
structure IsLast (i : Interpreter) (handler : Handler σ) (r : Run ω σ) (k : Nat) (f : Fetched)
    (journal : Journal) : Prop where
  fetched : i.fetchedAt? handler r k = some f
  none_after : ∀ j > k, i.fetchedAt? handler r j = none
  /-- Beyond the end of the listing there is the instruction that stops. -/
  listed : r.frame.machine.code.size ≤ f.position ∧ f.opcode = Opcode.stop ∧
      f.entry = some Instruction.stop.entry ∨
    ∃ entry ∈ OpcodeTable.reference.disassemble r.frame.machine.code.bytes,
      entry.position = f.position ∧ entry.opcode = f.opcode
  shown : ∀ c, i.callAt? handler r k = some c → c.session.position? = .ok f.position
  /-- Of all fetches that the run records this one is the last. -/
  recorded : ∃ before after : List Entry,
    journal = r.journal.addAll ((before ++ .run f.event :: after).map Entry.event) ∧
    ∀ opcode mnemonic position, .run (.fetched opcode mnemonic position) ∉ after

theorem none_after_of_end {k : Nat} {rk : Run ω σ} {ending : Ending}
    (hk : i.stateAt? handler r k = some rk) (hend : i.step handler rk = (some ending, r')) :
    ∀ j > k, i.fetchedAt? handler r j = none := by
  intro j hkj
  rw [fetchedAt?, stateAt?_eq_none_of_end hk hend hkj]
  rfl

theorem position?_of_callAt? {r : Run LineBreakpoints σ} {k : Nat} {f : Fetched}
    (hf : i.fetchedAt? handler r k = some f) {c : HandlerCall σ}
    (hc : i.callAt? handler r k = some c) : c.session.position? = .ok f.position := by
  have hposition := position_of_callAt? hf hc
  obtain ⟨rk, hk, rfl⟩ := Option.map_eq_some_iff.mp hf
  rw [callAt?_of_stateAt? hk] at hc
  have hsuspended : c.session.resumption = none := nextCall?_suspended hc
  rw [Session.position?, Session.whileSuspended_of_suspended hsuspended, hposition]
  rfl

/-- The entries of an instruction begin with its fetch, and there is no other one among them. -/
theorem entries_nextBlock (i : Interpreter) (handler : Handler σ) (r : Run ω σ) :
    ∃ after, (i.nextBlock handler r).entries = .run (i.fetch r).1.event :: after ∧
      ∀ opcode mnemonic position, .run (.fetched opcode mnemonic position) ∉ after := by
  refine ⟨_, rfl, fun opcode mnemonic position hmem => ?_⟩
  have hwell := nextBlock_wellFormed i handler r
  cases hcall : (i.nextBlock handler r).call? with
  | none =>
    rw [hcall] at hmem
    exact List.not_mem_nil hmem
  | some c =>
    rw [hcall] at hmem
    rcases List.mem_cons.mp hmem with hpaused | hentry
    · cases hpaused
    · have hrun := (hwell c hcall).2.1 _ hentry
      cases hrun

/-- **A run that ends by itself** ends with the last instruction that it fetches, and the cursor is
behind it. -/
theorem exists_isLast {r r' : Run LineBreakpoints σ} (hi : i.opcodes = .reference)
    (hstart : r.frame.machine.position = 0)
    (hsize : r.frame.machine.code.size ≤ Bytes.maxSize) (hp : r.frame.precompile? = none)
    {n : Nat} {ending : Ending} (h : i.run handler n r = some (ending, r'))
    {result : Except Fault Flow} (hresult : Ending.ofResult? result = some ending) :
    ∃ k f, i.IsLast handler r k f r'.journal ∧
      r'.frame.machine.position = f.behind r.frame.machine.code.size ∧
      ∀ index, Instruction.ofOpcode? f.opcode = some (.push index) →
        result = .error (.stackOverflow Stack.limit) := by
  obtain ⟨body, hjournal, -, hbody⟩ := journal_of_run h
  obtain ⟨hbody, -, -⟩ := hbody hp
  obtain ⟨k, hkn, rk, rk', hk, hend, rfl⟩ := (run_eq_some_iff hp).mp h
  have hbytes := bytes_of_stateAt? hi hk
  have hcode : rk.frame.machine.code.size = r.frame.machine.code.size :=
    congrArg ByteArray.size hbytes
  have hplain := plainStep_of_step hend hresult
  rw [hi] at hplain
  have hproceed : result ≠ .ok .proceed := by
    rintro rfl
    cases hresult
  have hfetched : i.fetchedAt? handler r k = some (i.fetch rk).1 := by
    rw [fetchedAt?, hk]
    rfl
  refine ⟨k, (i.fetch rk).1, ⟨hfetched, none_after_of_end hk hend, ?_, ?_, ?_⟩, ?_, ?_⟩
  · have hmax := Bytes.maxSize_add_le
    exact listed_of_stateAt? hi (by omega) hk (Or.inl hstart)
  · exact fun c hc => position?_of_callAt? hfetched hc
  · obtain ⟨after, hafter, hnone⟩ := entries_nextBlock i handler rk
    rw [hbody, blocks_of_end hk hend hkn, List.flatMap_append, List.flatMap_singleton, hafter]
      at hjournal
    refine ⟨opening r :: (i.blocks handler r k).flatMap Block.entries,
      after ++ [closing (rk'.leave ending)], ?_, ?_⟩
    · rw [hjournal]
      simp only [List.cons_append, List.append_assoc]
    · intro opcode mnemonic position hmem
      rcases List.mem_append.mp hmem with hmem | hmem
      · exact hnone opcode mnemonic position hmem
      · cases List.mem_singleton.mp hmem
  · rw [← hcode]
    exact OpcodeTable.position_of_end (hcode ▸ hsize) hplain hproceed
  · intro index hpush
    exact OpcodeTable.result_of_push_end (hcode ▸ hsize) hplain hproceed hpush

end Interpreter

end BytecodeDebugger
