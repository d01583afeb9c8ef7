import BytecodeDebugger.Instruction.Listing
import BytecodeDebugger.Proofs.Machine.Bytes
import BytecodeDebugger.Proofs.Machine.Code

/-!
# Listings

A listing has an entry at a position exactly if the position lies inside the code and starts an
instruction, and the opcode of the entry is the byte there
(`OpcodeTable.exists_mem_disassemble_iff`).  This is so for every table, since a table only gives
the entries their names.

So the targets for jumps can be read off a listing (`OpcodeTable.isJumpTarget_iff_listed`).
-/

namespace BytecodeDebugger

namespace OpcodeTable

variable {bytes : ByteArray} {position : Nat} {opcode : UInt8}

/-- The byte at a position at which bytes are left, and the bytes after it. -/
theorem getElem?_of_drop {first : UInt8} {rest : List UInt8}
    (h : bytes.data.toList.drop position = first :: rest) :
    bytes[position]? = some first ∧ bytes.data.toList.drop (position + 1) = rest := by
  have hfirst : (bytes.data.toList.drop position)[0]? = some first := by rw [h]; rfl
  rw [List.getElem?_drop, Nat.add_zero, Array.getElem?_toList] at hfirst
  refine ⟨hfirst, ?_⟩
  rw [← List.drop_drop, h]
  rfl

/-- The entries of a listing of the bytes from `start` on are those that strides lead to from the
first byte that is not left out. -/
theorem exists_mem_listFrom_iff (t : OpcodeTable) {start skipped : Nat} {rest : List UInt8}
    (h : bytes.data.toList.drop start = rest) :
    (∃ entry ∈ t.listFrom start skipped rest,
      entry.position = position ∧ entry.opcode = opcode) ↔
    bytes[position]? = some opcode ∧
      ∃ n, (Code.stride bytes)^[n] (start + skipped) = position := by
  fun_induction listFrom t start skipped rest with
  | case1 start skipped =>
    -- There is no byte left, and strides lead nowhere else than beyond the end.
    have hend : bytes.size ≤ start := by
      have hlength := List.drop_eq_nil_iff.mp h
      rwa [Bytes.length_toList] at hlength
    constructor
    · rintro ⟨entry, hentry, -⟩
      exact absurd hentry List.not_mem_nil
    · rintro ⟨hbyte, n, rfl⟩
      have hle := Code.add_le_iterate_stride bytes n (start + skipped)
      have hlt : (Code.stride bytes)^[n] (start + skipped) < bytes.size :=
        (getElem?_eq_some_iff.mp hbyte).1
      omega
  | case2 start skipped first rest ih =>
    rw [ih (getElem?_of_drop h).2, show start + 1 + skipped = start + (skipped + 1) by omega]
  | case3 start first rest size ih =>
    obtain ⟨hfirst, hrest⟩ := getElem?_of_drop h
    have hstride : start + 1 + size = Code.stride bytes start := by
      rw [Code.stride, Bytes.byteAt_of_getElem? hfirst]
    simp only [List.mem_cons, exists_eq_or_imp]
    rw [ih hrest, hstride, Nat.add_zero, Code.exists_iterate_stride_iff bytes start]
    constructor
    · rintro (⟨rfl, rfl⟩ | ⟨hbyte, n, hn⟩)
      · exact ⟨hfirst, Or.inl rfl⟩
      · have hlt := Code.lt_stride bytes start
        have hle := Code.add_le_iterate_stride bytes n (Code.stride bytes start)
        exact ⟨hbyte, Or.inr ⟨by omega, n, hn⟩⟩
    · rintro ⟨hbyte, rfl | ⟨-, n, hn⟩⟩
      · exact Or.inl ⟨rfl, Option.some.inj (hfirst.symm.trans hbyte)⟩
      · exact Or.inr ⟨hbyte, n, hn⟩

/-- **The entries of a listing** stand at the positions inside the code that start an
instruction. -/
theorem exists_mem_disassemble_iff (t : OpcodeTable) (bytes : ByteArray) (position : Nat)
    (opcode : UInt8) :
    (∃ entry ∈ t.disassemble bytes, entry.position = position ∧ entry.opcode = opcode) ↔
      bytes[position]? = some opcode ∧ Code.Starts bytes position :=
  t.exists_mem_listFrom_iff rfl

/-- **The targets for jumps are listed.**  A position is a target for jumps exactly if the listing,
by whatever table, has an entry there with the opcode that marks targets.  Only the bytes up to the
position are looked at, so it is the same for a position inside the code if there are more bytes at
the end. -/
theorem isJumpTarget_iff_listed (t : OpcodeTable) (c : Code) (position : Nat) :
    (c.isJumpTarget position = true ↔ ∃ entry ∈ t.disassemble c.bytes,
      entry.position = position ∧ entry.opcode = Opcode.jumpDest) ∧
    (∀ c' : Code, (∀ i ≤ position, c'.byteAt i = c.byteAt i) →
      c'.isJumpTarget position = c.isJumpTarget position) ∧
    (∀ more : ByteArray, position < c.size →
      { c with bytes := c.bytes ++ more }.isJumpTarget position = c.isJumpTarget position) := by
  refine ⟨?_, fun c' h => Code.isJumpTarget_congr h, fun more hposition => ?_⟩
  · rw [exists_mem_disassemble_iff, Code.isJumpTarget_iff]
  · apply Code.isJumpTarget_congr
    intro i hi
    have hlt : i < c.bytes.size := Nat.lt_of_le_of_lt hi hposition
    show Bytes.byteAt (c.bytes ++ more) i = Bytes.byteAt c.bytes i
    rw [Bytes.byteAt_append, if_pos hlt]

/-- A push whose immediate looks like a target and a push, a target, and a push that is cut off. -/
def nestedCode : Code :=
  { bytes := ⟨#[0x61, 0x5b, 0x60, 0x5b, 0x62]⟩ }

/-- The byte behind the immediate is the only target, also if the last immediate is there or the
bytes after the target are not. -/
theorem isJumpTarget_iff_listed_nested :
    nestedCode.isJumpTarget 3 = true ∧ ¬ nestedCode.isJumpTarget 1 = true ∧
      { nestedCode with bytes := nestedCode.bytes ++ (⟨#[0x5b]⟩ : ByteArray) }.isJumpTarget 3 =
        true ∧
      { nestedCode with bytes := (⟨#[0x61, 0x5b, 0x60, 0x5b]⟩ : ByteArray) }.isJumpTarget 3 =
        true := by
  obtain ⟨hlisted, hbefore, hmore⟩ := isJumpTarget_iff_listed .reference nestedCode 3
  have htarget : nestedCode.isJumpTarget 3 = true := hlisted.mpr (by decide)
  refine ⟨htarget, ?_, (hmore _ (by decide)).trans htarget, (hbefore _ (by decide)).trans htarget⟩
  rw [(isJumpTarget_iff_listed .reference nestedCode 1).1]
  decide

end OpcodeTable

end BytecodeDebugger
