import BytecodeDebugger.Proofs.Machine.Action
import BytecodeDebugger.Proofs.Machine.Code
import BytecodeDebugger.Proofs.Machine.Memory

/-!
# Checked operations

The operations of the machine compute with indices, offsets, sizes and positions as natural numbers.
Here they are written once more as they go with numbers of 64 bits, on a stack that is a row of
words from the bottom up: every sum has to be such a number, every difference must not be negative,
and every index and every slice has to lie inside what it is taken from.  Where that is not so, the
operation fails with `Fault.outOfRange`.

Each of them is the operation of the machine all the same (`Checked.popPair_eq`, `Checked.dup_eq`,
`Checked.read_eq`, `Checked.searchTarget_eq` and so on), so that no computation of an index is ever
out of range.  The code must not be longer than a byte string can be for that.
-/

namespace BytecodeDebugger

namespace Checked

/-! ### Indices -/

/-- The sum, if it is a number of 64 bits. -/
def add (m n : Nat) : Except Fault Nat :=
  if m + n ≤ maxPosition then .ok (m + n) else .error .outOfRange

/-- The difference, if it is not negative. -/
def sub (m n : Nat) : Except Fault Nat :=
  if n ≤ m then .ok (m - n) else .error .outOfRange

/-- The element at an index, if there is one. -/
def get {α : Type} (l : List α) (i : Nat) : Except Fault α :=
  match l[i]? with
  | some a => .ok a
  | none => .error .outOfRange

/-- The byte at an index, if there is one. -/
def byte (bytes : ByteArray) (i : Nat) : Except Fault UInt8 :=
  match bytes[i]? with
  | some byte => .ok byte
  | none => .error .outOfRange

/-- The bytes from `start` on and before `stop`, if there are all of them. -/
def slice (bytes : ByteArray) (start stop : Nat) : Except Fault ByteArray :=
  match Bytes.slice? bytes start stop with
  | some data => .ok data
  | none => .error .outOfRange

theorem add_eq_ok {m n : Nat} (h : m + n ≤ maxPosition) : add m n = .ok (m + n) :=
  if_pos h

theorem sub_eq_ok {m n : Nat} (h : n ≤ m) : sub m n = .ok (m - n) :=
  if_pos h

theorem byte_eq_ok_iff {bytes : ByteArray} {i : Nat} {b : UInt8} :
    byte bytes i = .ok b ↔ bytes[i]? = some b := by
  rw [byte]
  cases bytes[i]? <;> simp

theorem slice_eq_ok {bytes : ByteArray} {offset size : Nat} (h : offset + size ≤ bytes.size) :
    slice bytes offset (offset + size) = .ok (Bytes.window bytes offset size) := by
  rw [slice, Bytes.slice?_eq_window h]

/-! ### The stack -/

/-- Takes the topmost `count` words, which are split off the words from the bottom up. -/
def popMany (s : Stack) (count : Nat) : Except Fault (List Word × Stack) :=
  if s.depth < count then .error (s.underflow count)
  else do
    let split ← sub s.depth count
    if s.depth < split then .error .outOfRange
    else return ((s.fromBottom.drop split).reverse, ⟨(s.fromBottom.take split).reverse⟩)

/-- Takes the two topmost words, the top one first. -/
def popPair (s : Stack) : Except Fault ((Word × Word) × Stack) := do
  let (operands, s) ← popMany s 2
  return ((← get operands 0, ← get operands 1), s)

/-- Puts a copy of the word at the given depth on top. -/
def dup (s : Stack) (depth : Nat) : Except Fault Stack :=
  if s.depth < depth then .error (s.underflow depth)
  else do
    let word ← get s.fromBottom (← sub s.depth depth)
    s.push word

/-- Exchanges the top word and the one `below` places under it. -/
def swap (s : Stack) (below : Nat) : Except Fault Stack := do
  let needed ← add below 1
  if s.depth < needed then .error (s.underflow needed)
  else do
    let top ← sub s.depth 1
    let other ← sub top below
    let topWord ← get s.fromBottom top
    let otherWord ← get s.fromBottom other
    return ⟨((s.fromBottom.set top otherWord).set other topWord).reverse⟩

/-- The word `i` places below the top, counted from the bottom. -/
theorem get_fromBottom {s : Stack} {i : Nat} (h : i < s.words.length) :
    get s.fromBottom (s.depth - 1 - i) = .ok s.words[i] := by
  have hindex : s.words.length - 1 - i < s.words.length := by omega
  have hback : s.words.length - 1 - (s.words.length - 1 - i) = i := by omega
  have hword : s.fromBottom[s.depth - 1 - i]? = s.words[i]? := by
    rw [Stack.fromBottom, Stack.depth, List.getElem?_reverse hindex, hback]
  rw [get, hword, List.getElem?_eq_getElem h]

theorem set_reverse {α : Type} {l : List α} {i : Nat} (h : i < l.length) (a : α) :
    l.reverse.set (l.length - 1 - i) a = (l.set i a).reverse := by
  refine List.ext_getElem (by simp) fun j hj hj' => ?_
  have hj₁ : j < l.length := by simpa using hj
  rw [List.getElem_set, List.getElem_reverse, List.getElem_reverse, List.getElem_set]
  simp only [List.length_set]
  by_cases hij : l.length - 1 - i = j
  · have hij' : i = l.length - 1 - j := by omega
    rw [if_pos hij, if_pos hij']
  · have hij' : ¬ i = l.length - 1 - j := by omega
    rw [if_neg hij, if_neg hij']

theorem popMany_eq (s : Stack) (count : Nat) : popMany s count = s.popMany count := by
  unfold popMany Stack.popMany
  by_cases hcount : count ≤ s.depth
  · have hsplit : ¬ s.depth < s.depth - count := by omega
    have hback : s.words.length - (s.words.length - count) = count := Nat.sub_sub_self hcount
    rw [if_neg (Nat.not_lt.mpr hcount), if_pos hcount, sub_eq_ok hcount]
    show (if s.depth < s.depth - count then Except.error Fault.outOfRange else _) = _
    rw [if_neg hsplit, Stack.fromBottom, Stack.depth, List.drop_reverse, List.take_reverse,
      List.reverse_reverse, List.reverse_reverse, hback]
    rfl
  · rw [if_pos (Nat.not_le.mp hcount), if_neg hcount]

theorem popPair_eq (s : Stack) : popPair s = s.popPair := by
  rw [popPair, popMany_eq, Stack.popMany, Stack.popPair, Stack.depth]
  rcases s.words with _ | ⟨first, _ | ⟨second, rest⟩⟩
  · rfl
  · rfl
  · rw [if_pos (by simp)]
    rfl

theorem dup_eq (s : Stack) (below : Nat) : dup s (below + 1) = s.dup (below + 1) := by
  rw [dup, Stack.dup]
  by_cases hdepth : below < s.depth
  · have hindex : s.depth - (below + 1) = s.depth - 1 - below := by omega
    have hword : below < s.words.length := hdepth
    rw [if_neg (by omega), sub_eq_ok hdepth]
    show (get s.fromBottom (s.depth - (below + 1)) >>= s.push) = _
    rw [hindex, get_fromBottom hword, List.getElem?_eq_getElem hword]
    rfl
  · rw [if_pos (by omega), List.getElem?_eq_none (Nat.not_lt.mp hdepth)]

theorem swap_eq {s : Stack} {below : Nat} (hbelow : below < maxPosition) :
    swap s below = s.swap below := by
  rw [swap, Stack.swap, if_neg (Nat.not_le.mpr hbelow), add_eq_ok hbelow]
  show (if s.depth < below + 1 then Except.error (s.underflow (below + 1)) else _) = _
  by_cases hdepth : below < s.depth
  · have hbelow' : below < s.words.length := hdepth
    have hzero : 0 < s.words.length := by omega
    rw [if_neg (by omega), sub_eq_ok (Nat.one_le_of_lt hdepth), List.getElem?_eq_getElem hzero,
      List.getElem?_eq_getElem hbelow']
    show (do
      let other ← sub (s.depth - 1) below
      let topWord ← get s.fromBottom (s.depth - 1 - 0)
      let otherWord ← get s.fromBottom other
      return Stack.mk
        ((s.fromBottom.set (s.depth - 1 - 0) otherWord).set other topWord).reverse) = _
    rw [sub_eq_ok (Nat.le_sub_one_of_lt hdepth), get_fromBottom hzero]
    show (do
      let otherWord ← get s.fromBottom (s.depth - 1 - below)
      return Stack.mk ((s.fromBottom.set (s.depth - 1 - 0) otherWord).set (s.depth - 1 - below)
        s.words[0]).reverse) = _
    rw [get_fromBottom hbelow']
    have hset : (s.fromBottom.set (s.depth - 1 - 0) s.words[below]).set (s.depth - 1 - below)
        s.words[0] = ((s.words.set 0 s.words[below]).set below s.words[0]).reverse := by
      have hlength : below < (s.words.set 0 s.words[below]).length := by simpa using hbelow'
      have hset' := set_reverse hlength s.words[0]
      rw [List.length_set] at hset'
      rw [Stack.fromBottom, Stack.depth, set_reverse hzero, hset']
    show Except.ok (Stack.mk _) = _
    rw [hset, List.reverse_reverse]
  · rw [if_pos (by omega), List.getElem?_eq_none (Nat.not_lt.mp hdepth)]
    cases s.words[0]? <;> rfl

/-! ### The memory -/

/-- Extends the memory to the end of a range. -/
def extend (m : Memory) (offset size : Nat) : Except Fault Unit × Memory :=
  if size = 0 then (.ok (), m)
  else
    match add offset size with
    | .ok stop =>
      if stop ≤ Memory.limit then (.ok (), ⟨Bytes.extendTo m.bytes stop⟩)
      else (.error (.memoryLimit offset size), m)
    -- A sum that is no number of 64 bits is beyond the limit as well.
    | .error _ => (.error (.memoryLimit offset size), m)

/-- Reads a range, extending the memory to its end. -/
def read (m : Memory) (offset size : Nat) : Except Fault ByteArray × Memory :=
  if size = 0 then (.ok ByteArray.empty, m)
  else
    match extend m offset size with
    | (.ok (), m) => (do slice m.bytes offset (← add offset size), m)
    | (.error fault, m) => (.error fault, m)

/-- Reads a word, which is made of the first eight of the bytes that are read. -/
def readWord (m : Memory) (offset : Nat) : Except Fault Word × Memory :=
  match read m offset 8 with
  | (.ok data, m) => ((slice data 0 8).map Bytes.toWord, m)
  | (.error fault, m) => (.error fault, m)

/-- Writes a byte string over a slice of the same size. -/
def write (m : Memory) (offset : Nat) (data : ByteArray) : Except Fault Unit × Memory :=
  if data.size = 0 then (.ok (), m)
  else
    match extend m offset data.size with
    | (.ok (), m) =>
      match (do slice m.bytes offset (← add offset data.size) : Except Fault ByteArray) with
      | .ok old =>
        if old.size = data.size then (.ok (), ⟨Bytes.splice m.bytes offset data⟩)
        else (.error .outOfRange, m)
      | .error fault => (.error fault, m)
    | (.error fault, m) => (.error fault, m)

/-- Writes a word. -/
def writeWord (m : Memory) (offset : Nat) (word : Word) : Except Fault Unit × Memory :=
  write m offset (Bytes.ofWord word)

theorem limit_le_maxPosition : Memory.limit ≤ maxPosition := by
  decide

theorem extend_eq (m : Memory) (offset size : Nat) :
    extend m offset size = m.extend offset size := by
  rw [extend, Memory.extend_eq]
  by_cases hzero : size = 0
  · have haccess : Memory.Accessible offset size := Or.inl hzero
    rw [if_pos hzero, if_pos haccess, hzero, Memory.touch_zero]
  · rw [if_neg hzero, Memory.touch, if_neg hzero]
    by_cases hlimit : offset + size ≤ Memory.limit
    · have haccess : Memory.Accessible offset size := Or.inr hlimit
      have hadd : add offset size = .ok (offset + size) :=
        add_eq_ok (hlimit.trans limit_le_maxPosition)
      rw [if_pos haccess, hadd]
      exact if_pos hlimit
    · have haccess : ¬ Memory.Accessible offset size := fun h => hlimit (h.resolve_left hzero)
      rw [if_neg haccess, add]
      by_cases hmax : offset + size ≤ maxPosition
      · rw [if_pos hmax]
        exact if_neg hlimit
      · rw [if_neg hmax]

/-- The slice that is read after the memory was extended to its end. -/
theorem slice_touch (m : Memory) {offset size : Nat} (hzero : size ≠ 0)
    (h : Memory.Accessible offset size) :
    (do slice (m.touch offset size).bytes offset (← add offset size) : Except Fault ByteArray) =
      .ok (m.window offset size) := by
  have hlimit : offset + size ≤ maxPosition := (h.resolve_left hzero).trans limit_le_maxPosition
  rw [add_eq_ok hlimit]
  show slice (m.touch offset size).bytes offset (offset + size) = _
  rw [slice_eq_ok (m.le_size_touch offset hzero)]
  exact congrArg Except.ok (Memory.window_congr (m.byteAt_touch offset size) offset size)

theorem read_eq (m : Memory) (offset size : Nat) : read m offset size = m.read offset size := by
  rw [Memory.read_eq, read, extend_eq, Memory.extend_eq]
  by_cases haccess : Memory.Accessible offset size
  · rw [if_pos haccess, if_pos haccess]
    by_cases hzero : size = 0
    · subst hzero
      have hread := Memory.read_eq m offset 0
      rw [Memory.read, if_pos rfl, if_pos haccess] at hread
      rw [if_pos rfl, hread]
    · simp only [if_neg hzero, slice_touch m hzero haccess]
  · have hzero : size ≠ 0 := fun hzero => haccess (Or.inl hzero)
    simp only [if_neg haccess, if_neg hzero]

theorem readWord_eq (m : Memory) (offset : Nat) : readWord m offset = m.readWord offset := by
  have hwhole {data : ByteArray} (hsize : data.size = 8) : slice data 0 8 = .ok data := by
    rw [slice, Bytes.slice?, if_pos ⟨Nat.zero_le 8, hsize.ge⟩, ← hsize,
      ByteArray.extract_zero_size]
  rw [readWord, Memory.readWord, read_eq, Memory.read_eq]
  by_cases haccess : Memory.Accessible offset 8
  · have hsize : (m.window offset 8).size = 8 := Bytes.size_window m.bytes offset 8
    simp only [if_pos haccess, hwhole hsize]
  · simp only [if_neg haccess, Except.map]

theorem write_eq (m : Memory) (offset : Nat) (data : ByteArray) :
    write m offset data = m.write offset data := by
  rw [Memory.write_eq, write, extend_eq, Memory.extend_eq]
  by_cases hzero : data.size = 0
  · rw [if_pos hzero, if_pos hzero]
  · rw [if_neg hzero, if_neg hzero]
    by_cases haccess : Memory.Accessible offset data.size
    · have hsize : (m.window offset data.size).size = data.size := Bytes.size_window _ _ _
      simp only [if_pos haccess, slice_touch m hzero haccess, if_pos hsize]
    · simp only [if_neg haccess]

/-! ### The code -/

/-- Takes the opcode at the cursor. -/
def next (c : Code) : Except Fault (UInt8 × Code) :=
  match c.bytes[c.cursor]? with
  | some opcode => do return (opcode, c.seek (← add c.cursor 1))
  | none => .ok (Opcode.stop, c)

/-- Goes from instruction to instruction in search of a target for jumps, from index `i` on.  The
checked sum is written out here, as it shows that the search comes to an end. -/
def searchTarget (c : Code) (target i : Nat) : Except Fault Bool :=
  if i < c.size then
    match byte c.bytes i with
    | .ok opcode =>
      if i = target then .ok (opcode == Opcode.jumpDest)
      else if i + (1 + Opcode.immediateSize opcode) ≤ maxPosition then
        searchTarget c target (i + (1 + Opcode.immediateSize opcode))
      else .error .outOfRange
    | .error fault => .error fault
  else .ok false
termination_by c.size - i

/-- Whether a position is a target for jumps. -/
def isJumpTarget (c : Code) (position : Nat) : Except Fault Bool :=
  searchTarget c position 0

variable {c : Code}

theorem next_eq (h : c.size ≤ maxPosition) : next c = .ok c.next := by
  rw [next]
  cases hbyte : c.bytes[c.cursor]? with
  | none => rw [Code.next_of_none hbyte]
  | some opcode =>
    have hlt : c.cursor < c.size := (getElem?_eq_some_iff.mp hbyte).1
    rw [Code.next_of_some hbyte, add_eq_ok (by omega)]
    rfl

theorem immediateSize_le (opcode : UInt8) : Opcode.immediateSize opcode ≤ 32 := by
  by_cases h : 0x60 ≤ opcode.toNat ∧ opcode.toNat ≤ 0x7f
  · rw [Opcode.immediateSize_of_push h]
    omega
  · rw [Opcode.immediateSize_of_not_push h]
    omega

/-- **The search decides** whether strides lead to a position that marks a target. -/
theorem searchTarget_eq (h : c.size ≤ Bytes.maxSize) (target i : Nat) :
    searchTarget c target i =
      .ok (c.bytes[target]? == some Opcode.jumpDest && c.reaches target target i) := by
  have hreaches (position : Nat) := c.reaches_iff (Nat.le_add_left target position)
  fun_induction searchTarget c target i with
  | case1 hlt opcode hbyte =>
    have hself : c.reaches target target target = true := (hreaches target).mpr ⟨0, rfl⟩
    rw [byte_eq_ok_iff.mp hbyte, hself, Bool.and_true]
    rfl
  | case2 i hlt opcode hbyte hne hadd ih =>
    have hstride : i + (1 + Opcode.immediateSize opcode) = Code.stride c.bytes i := by
      rw [Code.stride, Bytes.byteAt_of_getElem? (byte_eq_ok_iff.mp hbyte), Nat.add_assoc]
    have hnext : c.reaches target target (Code.stride c.bytes i) = c.reaches target target i := by
      rw [Bool.eq_iff_iff, hreaches, hreaches, Code.exists_iterate_stride_iff c.bytes i target]
      refine ⟨fun hn => Or.inr ⟨?_, hn⟩, fun hn => (hn.resolve_left hne).2⟩
      obtain ⟨n, hn⟩ := hn
      have hstride' := Code.lt_stride c.bytes i
      have hle := Code.add_le_iterate_stride c.bytes n (Code.stride c.bytes i)
      omega
    rw [ih, hstride, hnext]
  | case3 i hlt opcode hbyte hne hadd =>
    -- The code is so short that no sum inside it leaves the numbers of 64 bits.
    have himmediate := immediateSize_le opcode
    have hmax := Bytes.maxSize_add_le
    omega
  | case4 i hlt fault hbyte =>
    have hsome : c.bytes[i]? = some c.bytes[i] := getElem?_pos c.bytes i hlt
    rw [byte_eq_ok_iff.mpr hsome] at hbyte
    cases hbyte
  | case5 i hge =>
    by_cases hmark : c.bytes[target]? = some Opcode.jumpDest
    · have hlt : target < c.size := (getElem?_eq_some_iff.mp hmark).1
      have hfalse : ¬ c.reaches target target i = true := by
        rw [hreaches]
        rintro ⟨n, hn⟩
        have hle := Code.add_le_iterate_stride c.bytes n i
        omega
      rw [Bool.not_eq_true _ |>.mp hfalse, Bool.and_false]
    · rw [beq_eq_false_iff_ne.mpr hmark, Bool.false_and]

theorem isJumpTarget_eq (h : c.size ≤ Bytes.maxSize) (position : Nat) :
    isJumpTarget c position = .ok (c.isJumpTarget position) :=
  searchTarget_eq h position 0

/-- To take an immediate is a checked computation as it stands, and it never fails. -/
theorem read_ne_outOfRange {size : Nat} (hsize : size ≤ Bytes.maxSize)
    (h : c.size ≤ Bytes.maxSize) : c.read size ≠ .error .outOfRange := by
  rw [Code.read_eq hsize (h.trans Bytes.maxSize_le_maxPosition)]
  intro herror
  cases herror

end Checked

end BytecodeDebugger
