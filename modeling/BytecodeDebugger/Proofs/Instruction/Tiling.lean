import BytecodeDebugger.Proofs.Instruction.Listing

/-!
# Listings as tilings

A listing can be started at any position at which an instruction starts (`OpcodeTable.listingAt`).
It has an entry for the instruction there, and goes on at the end of its stride
(`OpcodeTable.listingAt_of_some`, `OpcodeTable.listingAt_eq_cons`).  So each entry of a listing
tells the entries behind it (`OpcodeTable.listingAt_of_append`).

`OpcodeTable.disassemble_tiles` puts together what follows: the entries cover the code without a gap
or an overlap, and a listing cut off before an entry is the listing of the rest of the code.
-/

namespace BytecodeDebugger

namespace ListedInstruction

/-- The bytes of code that an entry stands for. -/
def bytes (entry : ListedInstruction) : List UInt8 :=
  entry.opcode :: entry.immediate

/-- The entry in the listing of a code that has so many more bytes before it. -/
def shift (distance : Nat) (entry : ListedInstruction) : ListedInstruction :=
  { entry with position := distance + entry.position }

end ListedInstruction

namespace OpcodeTable

variable {t : OpcodeTable} {bytes : ByteArray} {position : Nat}
  {before after : List ListedInstruction} {entry : ListedInstruction}

/-! ### The listing from a position on -/

/-- The listing of the bytes from a position on. -/
def listingAt (t : OpcodeTable) (bytes : ByteArray) (position : Nat) : List ListedInstruction :=
  t.listFrom position 0 (bytes.data.toList.drop position)

/-- To leave bytes out is to start behind them. -/
theorem listFrom_skipped (t : OpcodeTable) (start skipped : Nat) (rest : List UInt8) :
    t.listFrom start skipped rest = t.listFrom (start + skipped) 0 (rest.drop skipped) := by
  induction rest generalizing start skipped with
  | nil => simp [listFrom]
  | cons first rest ih =>
    cases skipped with
    | zero => rfl
    | succ skipped =>
      have hstart : start + 1 + skipped = start + (skipped + 1) := by omega
      rw [listFrom, ih, List.drop_succ_cons, hstart]

theorem listingAt_of_none (h : bytes[position]? = none) : t.listingAt bytes position = [] := by
  have hlength : bytes.data.toList.length ≤ position := by
    rw [Bytes.length_toList]
    exact Nat.le_of_not_lt ((getElem?_eq_none_iff bytes position).mp h)
  rw [listingAt, List.drop_eq_nil_of_le hlength, listFrom]

/-- The listing has an entry for the instruction at the position, and goes on a stride further. -/
theorem listingAt_of_some {opcode : UInt8} (h : bytes[position]? = some opcode) :
    t.listingAt bytes position =
      { position
        opcode
        mnemonic := t.mnemonic opcode
        immediate := (bytes.data.toList.drop (position + 1)).take (Opcode.immediateSize opcode) } ::
      t.listingAt bytes (Code.stride bytes position) := by
  have hlt : position < bytes.data.toList.length := by
    rw [Bytes.length_toList]
    exact (getElem?_eq_some_iff.mp h).1
  have hfirst : bytes.data.toList[position] = opcode := (getElem?_eq_some_iff.mp h).2
  have hstride : Code.stride bytes position = position + 1 + Opcode.immediateSize opcode := by
    rw [Code.stride, Bytes.byteAt_of_getElem? h]
  rw [listingAt, List.drop_eq_getElem_cons hlt, hfirst, listFrom, listFrom_skipped, List.drop_drop,
    listingAt, hstride]

/-- What the first entry of a listing says of the code, and of the entries behind it. -/
theorem listingAt_eq_cons (h : t.listingAt bytes position = entry :: after) :
    entry.position = position ∧ bytes[position]? = some entry.opcode ∧
      entry.immediate =
        (bytes.data.toList.drop (position + 1)).take (Opcode.immediateSize entry.opcode) ∧
      after = t.listingAt bytes (Code.stride bytes position) := by
  cases hbyte : bytes[position]? with
  | none =>
    rw [listingAt_of_none hbyte] at h
    cases h
  | some opcode =>
    rw [listingAt_of_some hbyte] at h
    obtain ⟨rfl, rfl⟩ := List.cons.inj h
    exact ⟨rfl, rfl, rfl, rfl⟩

theorem size_le_of_listingAt_eq_nil (h : t.listingAt bytes position = []) :
    bytes.size ≤ position := by
  by_contra hlt
  have hbyte : bytes[position]? = some bytes[position] :=
    getElem?_pos bytes position (Nat.lt_of_not_le hlt)
  rw [listingAt_of_some hbyte] at h
  cases h

/-- **An entry tells the rest of the listing**, which is the one from its position on. -/
theorem listingAt_of_append (h : t.listingAt bytes position = before ++ entry :: after) :
    t.listingAt bytes entry.position = entry :: after := by
  induction before generalizing position with
  | nil =>
    have hposition := (listingAt_eq_cons h).1
    rw [hposition]
    exact h
  | cons first before ih =>
    have hrest := (listingAt_eq_cons h).2.2.2
    exact ih hrest.symm

/-! ### Tiling -/

theorem flatMap_bytes_listFrom (t : OpcodeTable) (start skipped : Nat) (rest : List UInt8) :
    (t.listFrom start skipped rest).flatMap ListedInstruction.bytes = rest.drop skipped := by
  fun_induction listFrom t start skipped rest with
  | case1 => rw [List.drop_nil]; rfl
  | case2 start skipped first rest ih => exact ih
  | case3 start opcode rest size ih =>
    rw [List.flatMap_cons, ih, ListedInstruction.bytes, List.drop_zero, List.cons_append,
      List.take_append_drop]

theorem map_shift_listFrom (t : OpcodeTable) (distance start skipped : Nat) (rest : List UInt8) :
    (t.listFrom start skipped rest).map (ListedInstruction.shift distance) =
      t.listFrom (distance + start) skipped rest := by
  fun_induction listFrom t start skipped rest with
  | case1 => rfl
  | case2 start skipped first rest ih => exact ih
  | case3 start opcode rest size ih => exact congrArg _ ih

/-- The listing of the rest of a code, at the positions in the whole of it. -/
theorem map_shift_disassemble (t : OpcodeTable) (bytes : ByteArray) (position : Nat) :
    (t.disassemble (bytes.extract position bytes.size)).map (ListedInstruction.shift position) =
      t.listingAt bytes position := by
  have hlength : (bytes.data.toList.drop position).length ≤ bytes.size - position := by
    rw [List.length_drop, Bytes.length_toList]
  rw [disassemble, map_shift_listFrom, Bytes.toList_extract, List.take_of_length_le hlength]
  rfl

/-- An immediate is as long as its opcode says, unless the code ends before. -/
theorem length_immediate (h : t.listingAt bytes position = entry :: after) :
    entry.immediate.length =
      min (Opcode.immediateSize entry.opcode) (bytes.size - (position + 1)) := by
  have himmediate := (listingAt_eq_cons h).2.2.1
  rw [himmediate, List.length_take, List.length_drop, Bytes.length_toList]

/-- The stride from an entry is the one of its opcode. -/
theorem stride_of_listingAt (h : t.listingAt bytes position = entry :: after) :
    Code.stride bytes position = position + 1 + Opcode.immediateSize entry.opcode := by
  have hbyte := (listingAt_eq_cons h).2.1
  rw [Code.stride, Bytes.byteAt_of_getElem? hbyte]

/-- **A listing tiles the code.**  Its entries put together are the code.  The first of them stands
at position zero and each other one right behind the one before it, whose immediate is as long as
its opcode says.  Only the immediate of the last one may be shorter, and then the code ends with it.
If the code is cut off before an entry, the listing of the rest has that entry and those behind
it. -/
theorem disassemble_tiles (t : OpcodeTable) (bytes : ByteArray) :
    (t.disassemble bytes).flatMap ListedInstruction.bytes = bytes.data.toList ∧
    (bytes.size ≠ 0 → ∃ first after,
      t.disassemble bytes = first :: after ∧ first.position = 0) ∧
    (∀ before entry next after, t.disassemble bytes = before ++ entry :: next :: after →
      next.position = entry.position + 1 + entry.immediate.length ∧
        entry.immediate.length = Opcode.immediateSize entry.opcode) ∧
    (∀ before last, t.disassemble bytes = before ++ [last] →
      last.immediate.length ≤ Opcode.immediateSize last.opcode ∧
        last.position + 1 + last.immediate.length = bytes.size) ∧
    (∀ before entry after, t.disassemble bytes = before ++ entry :: after →
      (t.disassemble (bytes.extract entry.position bytes.size)).map
        (ListedInstruction.shift entry.position) = entry :: after) := by
  have hentry {before after : List ListedInstruction} {entry : ListedInstruction}
      (h : t.disassemble bytes = before ++ entry :: after) :
      t.listingAt bytes entry.position = entry :: after := listingAt_of_append h
  refine ⟨flatMap_bytes_listFrom t 0 0 _, fun hsize => ?_, fun before entry next after h => ?_,
    fun before last h => ?_, fun before entry after h => ?_⟩
  · have hbyte : bytes[0]? = some bytes[0] := getElem?_pos bytes 0 (Nat.pos_of_ne_zero hsize)
    exact ⟨_, _, listingAt_of_some hbyte, rfl⟩
  · have hlength := length_immediate (hentry h)
    have hstride := stride_of_listingAt (hentry h)
    obtain ⟨-, -, -, hafter⟩ := listingAt_eq_cons (hentry h)
    obtain ⟨hnext, hbyte, -⟩ := listingAt_eq_cons hafter.symm
    -- The next entry stands inside the code, so the immediate before it does too.
    have hlt : Code.stride bytes entry.position < bytes.size := (getElem?_eq_some_iff.mp hbyte).1
    omega
  · have hlength := length_immediate (hentry h)
    have hstride := stride_of_listingAt (hentry h)
    obtain ⟨-, hbyte, -, hafter⟩ := listingAt_eq_cons (hentry h)
    have hlt : last.position < bytes.size := (getElem?_eq_some_iff.mp hbyte).1
    have hend := size_le_of_listingAt_eq_nil hafter.symm
    omega
  · rw [map_shift_disassemble]
    exact hentry h

/-- A target for jumps, a push, and another one whose immediate is cut off. -/
def cutCode : ByteArray :=
  ⟨#[0x5b, 0x60, 0x01, 0x61, 0xff]⟩

/-- The second push has one byte of its two, with which the code ends, and is listed alike if the
code starts with it. -/
theorem disassemble_tiles_cut : ∃ target push cut,
    reference.disassemble cutCode = [target, push, cut] ∧ target.position = 0 ∧
      cut.position = push.position + 1 + push.immediate.length ∧ push.immediate.length = 1 ∧
      cut.position + 1 + cut.immediate.length = cutCode.size ∧
      (reference.disassemble ⟨#[0x61, 0xff]⟩).map (ListedInstruction.shift 3) = [cut] := by
  obtain ⟨-, hfirst, hnext, hlast, hrest⟩ := disassemble_tiles reference cutCode
  have hlisting : reference.disassemble cutCode = [_, _, _] := rfl
  obtain ⟨first, after, hcons, hzero⟩ := hfirst (by decide)
  obtain ⟨rfl, -⟩ := List.cons.inj (hlisting.symm.trans hcons)
  obtain ⟨hposition, hlength⟩ := hnext [_] _ _ [] hlisting
  exact ⟨_, _, _, hlisting, hzero, hposition, hlength, (hlast [_, _] _ hlisting).2,
    hrest [_, _] _ [] hlisting⟩

end OpcodeTable

end BytecodeDebugger
