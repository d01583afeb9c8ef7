import BytecodeDebugger.Machine.Memory
import BytecodeDebugger.Proofs.Machine.Bytes

/-!
# Memory as a function

A memory stands for its contents, a byte at every address.  The contents are zero at first and are
changed by the writes that succeed and by nothing else (`Memory.Operation.applyTo`); what an
operation returns is a matter of the contents alone (`Memory.Operation.value`), and whether it is
refused hangs on its range alone (`Memory.Operation.fault?`).

An operation answers as the contents have it (`Memory.perform_fst`) and leaves a memory that stands
for the contents afterwards (`Memory.byteAt_perform`), with a size that has grown to the end of its
range (`Memory.size_perform`).  `Memory.refines_contents` follows a memory through any operations.
-/

namespace BytecodeDebugger.Memory

variable {m : Memory} {offset size address : Nat} {data : ByteArray}

/-! ### The view of each operation -/

theorem byteAt_of_size_le (h : m.size ≤ address) : m.byteAt address = 0 :=
  Bytes.byteAt_of_size_le h

/-- Memories of the same size are equal if their bytes are. -/
theorem ext_byteAt {m' : Memory} (hsize : m'.size = m.size) (h : m'.byteAt = m.byteAt) :
    m' = m := by
  have hbytes : m'.bytes = m.bytes := Bytes.ext_byteAt hsize fun i _ => congrFun h i
  cases m
  cases m'
  exact congrArg Memory.mk hbytes

theorem byteAt_touch (m : Memory) (offset size : Nat) :
    (m.touch offset size).byteAt = m.byteAt := by
  rw [touch]
  split_ifs with h
  · rfl
  · funext address
    exact Bytes.byteAt_extendTo m.bytes (offset + size) address

theorem size_touch (m : Memory) (offset size : Nat) :
    (m.touch offset size).size = if size = 0 then m.size else max m.size (offset + size) := by
  rw [touch]
  split_ifs with h
  · rfl
  · exact Bytes.size_extendTo m.bytes (offset + size)

theorem touch_zero (m : Memory) (offset : Nat) : m.touch offset 0 = m :=
  if_pos rfl

theorem le_size_touch (m : Memory) (offset : Nat) {size : Nat} (h : size ≠ 0) :
    offset + size ≤ (m.touch offset size).size := by
  rw [size_touch, if_neg h]
  omega

/-- To touch a range is to put zeros at the end. -/
theorem exists_touch_eq (m : Memory) (offset size : Nat) :
    ∃ count, m.touch offset size = ⟨m.bytes ++ Bytes.zeros count⟩ := by
  have hnone : m = ⟨m.bytes ++ Bytes.zeros 0⟩ := by
    have hbytes : m.bytes ++ Bytes.zeros 0 = m.bytes := ByteArray.append_empty
    rw [hbytes]
  rw [touch]
  split_ifs with hzero
  · exact ⟨0, hnone⟩
  · rw [Bytes.extendTo]
    split_ifs with hlt
    · exact ⟨_, rfl⟩
    · exact ⟨0, hnone⟩

/-- What a window shows hangs on what there is at each address of its range. -/
theorem window_congr_of_range {m' : Memory}
    (h : ∀ i < size, m'.byteAt (offset + i) = m.byteAt (offset + i)) :
    m'.window offset size = m.window offset size := by
  refine Bytes.ext_byteAt ?_ fun i hi => ?_
  · rw [window, window, Bytes.size_window, Bytes.size_window]
  · rw [window, Bytes.size_window] at hi
    have hbyte : Bytes.byteAt m'.bytes (offset + i) = Bytes.byteAt m.bytes (offset + i) := h i hi
    rw [window, window, Bytes.byteAt_window, Bytes.byteAt_window, hbyte]

theorem window_congr {m' : Memory} (h : m'.byteAt = m.byteAt) (offset size : Nat) :
    m'.window offset size = m.window offset size :=
  window_congr_of_range fun i _ => congrFun h (offset + i)

theorem extend_eq (m : Memory) (offset size : Nat) : m.extend offset size =
    if Accessible offset size then (.ok (), m.touch offset size)
    else (.error (.memoryLimit offset size), m) :=
  rfl

/-- A read that is not refused shows the window of its range. -/
theorem read_eq (m : Memory) (offset size : Nat) : m.read offset size =
    if Accessible offset size then (.ok (m.window offset size), m.touch offset size)
    else (.error (.memoryLimit offset size), m) := by
  by_cases hzero : size = 0
  · -- An empty read does not look at the memory at all.
    subst hzero
    have hempty : m.window offset 0 = ByteArray.empty := by
      refine Bytes.ext_byteAt ?_ fun i hi => ?_
      · rw [window, Bytes.size_window]
        rfl
      · rw [window, Bytes.size_window] at hi
        omega
    have haccess : Accessible offset 0 := Or.inl rfl
    rw [read, if_pos rfl, if_pos haccess, hempty, touch_zero]
  · rw [read, if_neg hzero, extend_eq]
    by_cases haccess : Accessible offset size
    · have hslice : Bytes.slice? (m.touch offset size).bytes offset (offset + size) =
          some (m.window offset size) := by
        rw [Bytes.slice?_eq_window (m.le_size_touch offset hzero)]
        exact congrArg some (window_congr (m.byteAt_touch offset size) offset size)
      simp only [if_pos haccess, hslice]
    · simp only [if_neg haccess]

/-- A write that is not refused puts the bytes into its range. -/
theorem write_eq (m : Memory) (offset : Nat) (data : ByteArray) : m.write offset data =
    if data.size = 0 then (.ok (), m)
    else if Accessible offset data.size then
      (.ok (), ⟨Bytes.splice (m.touch offset data.size).bytes offset data⟩)
    else (.error (.memoryLimit offset data.size), m) := by
  rw [write]
  split_ifs with hzero haccess
  · rfl
  · rw [extend_eq]
    simp only [if_pos haccess, if_pos (m.le_size_touch offset hzero)]
  · rw [extend_eq]
    simp only [if_neg haccess]

theorem write_of_not_accessible (h : ¬ Accessible offset data.size) :
    m.write offset data = (.error (.memoryLimit offset data.size), m) := by
  have hsize : data.size ≠ 0 := fun hzero => h (Or.inl hzero)
  rw [write_eq, if_neg hsize, if_neg h]

theorem write_of_accessible (h : Accessible offset data.size) :
    (m.write offset data).1 = .ok () := by
  rw [write_eq]
  split_ifs <;> rfl

/-! ### Operations -/

/-- Something that is done with a memory. -/
inductive Operation where
  /-- The memory is extended to the end of a range. -/
  | extend (offset size : Nat)
  | read (offset size : Nat)
  | write (offset : Nat) (data : ByteArray)
  | readWord (offset : Nat)
  | writeWord (offset : Nat) (word : Word)
  /-- A range is looked at without being touched. -/
  | peek (offset size : Nat)

/-- The type of what an operation returns. -/
abbrev Operation.Value : Operation → Type
  | extend _ _ | write _ _ | writeWord _ _ => Unit
  | read _ _ | peek _ _ => ByteArray
  | readWord _ => Word

/-- Carries out an operation. -/
def perform (m : Memory) : (operation : Operation) → Except Fault operation.Value × Memory
  | .extend offset size => m.extend offset size
  | .read offset size => m.read offset size
  | .write offset data => m.write offset data
  | .readWord offset => m.readWord offset
  | .writeWord offset word => m.writeWord offset word
  | .peek offset size => (m.peek offset size, m)

/-- The memory after operations, one after another. -/
def performAll (m : Memory) (operations : List Operation) : Memory :=
  operations.foldl (fun m operation => (m.perform operation).2) m

/-! ### Contents -/

/-- A byte at every address. -/
abbrev Contents := Nat → UInt8

namespace Contents

/-- The bytes of a range. -/
def window (c : Contents) (offset size : Nat) : ByteArray :=
  ⟨Array.ofFn fun i : Fin size => c (offset + i)⟩

/-- The number that eight bytes write, the most significant one first. -/
def number (c : Contents) (offset : Nat) : Nat :=
  ∑ i ∈ Finset.range 8, (c (offset + i)).toNat * 256 ^ (7 - i)

/-- The contents with `data 0`, `data 1` and so on in a range. -/
def store (c : Contents) (offset size : Nat) (data : Contents) : Contents := fun address =>
  if offset ≤ address ∧ address < offset + size then data (address - offset) else c address

end Contents

namespace Operation

/-- The range that an operation touches if it succeeds. -/
def range? : Operation → Option (Nat × Nat)
  | extend offset size | read offset size => some (offset, size)
  | write offset data => some (offset, data.size)
  | readWord offset | writeWord offset _ => some (offset, 8)
  | peek _ _ => none

/-- The fault of an operation, if its range is not empty and ends beyond the limit. -/
def fault? (operation : Operation) : Option Fault :=
  operation.range?.bind fun (offset, size) =>
    if 0 < size ∧ limit < offset + size then some (.memoryLimit offset size) else none

/-- The end of what an operation touches, if it succeeds and its range is not empty. -/
def end? (operation : Operation) : Option Nat :=
  operation.range?.bind fun (offset, size) =>
    if 0 < size ∧ offset + size ≤ limit then some (offset + size) else none

/-- What an operation returns that is not refused. -/
def value (c : Contents) : (operation : Operation) → operation.Value
  | extend _ _ | write _ _ | writeWord _ _ => ()
  | read offset size | peek offset size => c.window offset size
  | readWord offset => UInt64.ofNat (c.number offset)

/-- The contents after an operation that is not refused: only writes change them. -/
def applyTo (c : Contents) : Operation → Contents
  | write offset data => c.store offset data.size (Bytes.byteAt data)
  | writeWord offset word =>
    c.store offset 8 fun i => UInt8.ofNat (word.toNat / 256 ^ (7 - i))
  | _ => c

end Operation

/-- Nothing is asked for that no byte string can hold. -/
def Operation.Bounded : Operation → Prop
  | peek _ size => size ≤ Bytes.maxSize
  | _ => True

/-- The contents after an operation, which is refused or not. -/
def Contents.step (c : Contents) (operation : Operation) : Contents :=
  if operation.fault? = none then operation.applyTo c else c

/-- The contents after operations, one after another, that are zero at first. -/
def Contents.after (operations : List Operation) : Contents :=
  operations.foldl Contents.step fun _ => 0

/-! ### One operation -/

theorem Contents.store_congr (c : Contents) {data data' : Contents}
    (h : ∀ i < size, data i = data' i) : c.store offset size data = c.store offset size data' := by
  funext address
  by_cases hin : offset ≤ address ∧ address < offset + size
  · rw [store, store, if_pos hin, if_pos hin]
    exact h _ (by omega)
  · rw [store, store, if_neg hin, if_neg hin]

theorem Contents.store_zero (c data : Contents) (offset : Nat) : c.store offset 0 data = c := by
  funext address
  exact if_neg (by omega)

theorem Contents.applyTo_of_empty {operation : Operation} (c : Contents)
    (h : operation.range? = some (offset, 0)) : operation.applyTo c = c := by
  cases operation with
  | write offset' data =>
    have hsize : data.size = 0 := (Prod.mk.inj (Option.some.inj h)).2
    show c.store offset' data.size _ = c
    rw [hsize, store_zero]
  | writeWord offset' word => exact absurd (Prod.mk.inj (Option.some.inj h)).2 (by decide)
  | _ => rfl

theorem window_eq (m : Memory) (offset size : Nat) :
    m.window offset size = Contents.window m.byteAt offset size := by
  have hsize : (Contents.window m.byteAt offset size).size = size := Array.size_ofFn
  refine Bytes.ext_byteAt ?_ fun i hi => ?_
  · rw [window, Bytes.size_window, hsize]
  · rw [window, Bytes.size_window] at hi
    have hbyte : Bytes.byteAt (Contents.window m.byteAt offset size) i = m.byteAt (offset + i) := by
      rw [Bytes.byteAt_eq_data, Contents.window, Array.getElem?_ofFn, dif_pos hi]
      rfl
    rw [hbyte, window, Bytes.byteAt_window, if_pos hi]
    rfl

theorem toWord_window (m : Memory) (offset : Nat) :
    Bytes.toWord (m.window offset 8) = UInt64.ofNat (Contents.number m.byteAt offset) := by
  have hnumber : Bytes.toNat (m.window offset 8) = Contents.number m.byteAt offset := by
    rw [Bytes.toNat_eq_sum, window, Bytes.size_window]
    refine Finset.sum_congr rfl fun i hi => ?_
    rw [Bytes.byteAt_window, if_pos (Finset.mem_range.mp hi)]
    rfl
  rw [← UInt64.toNat_inj, Bytes.toNat_toWord, hnumber, UInt64.toNat_ofNat']

theorem byteAt_write (h : Accessible offset data.size) :
    (m.write offset data).2.byteAt =
      Contents.store m.byteAt offset data.size (Bytes.byteAt data) := by
  rw [write_eq]
  by_cases hzero : data.size = 0
  · rw [if_pos hzero, hzero, Contents.store_zero]
  · have hend : offset + data.size ≤ (m.touch offset data.size).bytes.size :=
      m.le_size_touch offset hzero
    -- The bytes are put into the memory as it is after it has grown, which shows what it showed.
    rw [if_neg hzero, if_pos h, ← m.byteAt_touch offset data.size]
    funext address
    exact Bytes.byteAt_splice hend address

theorem size_write (h : Accessible offset data.size) :
    (m.write offset data).2.size =
      if data.size = 0 then m.size else max m.size (offset + data.size) := by
  rw [write_eq]
  by_cases hzero : data.size = 0
  · rw [if_pos hzero, if_pos hzero]
  · have hend : offset + data.size ≤ (m.touch offset data.size).bytes.size :=
      m.le_size_touch offset hzero
    rw [if_neg hzero, if_pos h, ← size_touch]
    exact Bytes.size_splice hend

/-- **An operation on a range that is accessible** succeeds with what the contents have, and changes
them as it is meant to. -/
theorem perform_of_accessible {operation : Operation} (m : Memory)
    (hrange : operation.range? = some (offset, size)) (h : Accessible offset size) :
    (m.perform operation).1 = .ok (operation.value m.byteAt) ∧
    (m.perform operation).2.byteAt = operation.applyTo m.byteAt ∧
    (m.perform operation).2.size = if size = 0 then m.size else max m.size (offset + size) := by
  cases operation with
  | extend offset' size' =>
    obtain ⟨rfl, rfl⟩ := Prod.mk.inj (Option.some.inj hrange)
    rw [perform, extend_eq, if_pos h]
    exact ⟨rfl, m.byteAt_touch _ _, m.size_touch _ _⟩
  | read offset' size' =>
    obtain ⟨rfl, rfl⟩ := Prod.mk.inj (Option.some.inj hrange)
    rw [perform, read_eq, if_pos h, window_eq]
    exact ⟨rfl, m.byteAt_touch _ _, m.size_touch _ _⟩
  | readWord offset' =>
    obtain ⟨rfl, rfl⟩ := Prod.mk.inj (Option.some.inj hrange)
    rw [perform, readWord, read_eq, if_pos h]
    refine ⟨?_, m.byteAt_touch _ _, m.size_touch _ _⟩
    exact congrArg Except.ok (m.toWord_window offset')
  | write offset' data =>
    obtain ⟨rfl, rfl⟩ := Prod.mk.inj (Option.some.inj hrange)
    exact ⟨write_of_accessible h, byteAt_write h, size_write h⟩
  | writeWord offset' word =>
    obtain ⟨rfl, rfl⟩ := Prod.mk.inj (Option.some.inj hrange)
    refine ⟨write_of_accessible h, ?_, size_write h⟩
    rw [perform, writeWord, byteAt_write h]
    exact Contents.store_congr _ fun i hi => Bytes.byteAt_ofWord word hi
  | peek offset' size' => cases hrange

theorem perform_of_not_accessible {operation : Operation} (m : Memory)
    (hrange : operation.range? = some (offset, size)) (h : ¬ Accessible offset size) :
    m.perform operation = (.error (.memoryLimit offset size), m) := by
  cases operation with
  | extend offset' size' =>
    obtain ⟨rfl, rfl⟩ := Prod.mk.inj (Option.some.inj hrange)
    rw [perform, extend_eq, if_neg h]
  | read offset' size' =>
    obtain ⟨rfl, rfl⟩ := Prod.mk.inj (Option.some.inj hrange)
    rw [perform, read_eq, if_neg h]
  | readWord offset' =>
    obtain ⟨rfl, rfl⟩ := Prod.mk.inj (Option.some.inj hrange)
    rw [perform, readWord, read_eq, if_neg h]
    rfl
  | write offset' data =>
    obtain ⟨rfl, rfl⟩ := Prod.mk.inj (Option.some.inj hrange)
    exact write_of_not_accessible h
  | writeWord offset' word =>
    obtain ⟨rfl, rfl⟩ := Prod.mk.inj (Option.some.inj hrange)
    have hword : ¬ Accessible offset' (Bytes.ofWord word).size := h
    exact write_of_not_accessible hword
  | peek offset' size' => cases hrange

/-- An operation with a range fails only if the range is refused, and then it changes nothing. -/
theorem perform_eq_error (operation : Operation)
    (hrange : operation.range? = some (offset, size))
    (h : (m.perform operation).1 = .error fault) :
    fault = .memoryLimit offset size ∧ 0 < size ∧ limit < offset + size ∧
      (m.perform operation).2 = m := by
  by_cases haccess : Accessible offset size
  · rw [(m.perform_of_accessible hrange haccess).1] at h
    cases h
  · rw [m.perform_of_not_accessible hrange haccess] at h ⊢
    rw [Accessible] at haccess
    exact ⟨(Except.error.inj h).symm, by omega, by omega, rfl⟩

theorem fault?_of_range? {operation : Operation} (h : operation.range? = some (offset, size)) :
    operation.fault? =
      if Accessible offset size then none else some (.memoryLimit offset size) := by
  rw [Operation.fault?, h]
  show (if 0 < size ∧ limit < offset + size then _ else _) = _
  by_cases haccess : Accessible offset size
  · rw [if_pos haccess, if_neg]
    rcases haccess with hzero | hend <;> omega
  · rw [if_neg haccess, if_pos]
    rw [Accessible] at haccess
    omega

theorem end?_of_range? {operation : Operation} (h : operation.range? = some (offset, size)) :
    operation.end? =
      if size ≠ 0 ∧ Accessible offset size then some (offset + size) else none := by
  rw [Operation.end?, h]
  refine if_congr ?_ rfl rfl
  rw [Accessible]
  omega

theorem range?_eq_none_iff {operation : Operation} :
    operation.range? = none ↔ ∃ offset size, operation = .peek offset size := by
  cases operation <;> simp [Operation.range?]

/-- What an operation returns is told by its range and the contents. -/
theorem perform_fst {operation : Operation} (m : Memory) (h : operation.Bounded) :
    (m.perform operation).1 = match operation.fault? with
      | some fault => .error fault
      | none => .ok (operation.value m.byteAt) := by
  cases hrange : operation.range? with
  | none =>
    obtain ⟨offset, size, rfl⟩ := range?_eq_none_iff.mp hrange
    have hsize : size ≤ Bytes.maxSize := h
    show m.peek offset size = .ok (Contents.window m.byteAt offset size)
    rw [peek, if_pos hsize, window_eq]
  | some range =>
    obtain ⟨offset, size⟩ := range
    rw [fault?_of_range? hrange]
    by_cases haccess : Accessible offset size
    · rw [if_pos haccess]
      exact (m.perform_of_accessible hrange haccess).1
    · rw [if_neg haccess, m.perform_of_not_accessible hrange haccess]

theorem byteAt_perform (m : Memory) (operation : Operation) :
    (m.perform operation).2.byteAt = Contents.step m.byteAt operation := by
  cases hrange : operation.range? with
  | none =>
    obtain ⟨offset, size, rfl⟩ := range?_eq_none_iff.mp hrange
    rfl
  | some range =>
    obtain ⟨offset, size⟩ := range
    rw [Contents.step, fault?_of_range? hrange]
    by_cases haccess : Accessible offset size
    · rw [if_pos haccess, if_pos rfl]
      exact (m.perform_of_accessible hrange haccess).2.1
    · rw [if_neg haccess, if_neg (by simp), m.perform_of_not_accessible hrange haccess]

theorem size_perform (m : Memory) (operation : Operation) :
    (m.perform operation).2.size = max m.size (operation.end?.getD 0) := by
  cases hrange : operation.range? with
  | none =>
    obtain ⟨offset, size, rfl⟩ := range?_eq_none_iff.mp hrange
    exact (Nat.max_eq_left (Nat.zero_le _)).symm
  | some range =>
    obtain ⟨offset, size⟩ := range
    rw [end?_of_range? hrange]
    by_cases haccess : Accessible offset size
    · rw [(m.perform_of_accessible hrange haccess).2.2]
      by_cases hzero : size = 0
      · simp [hzero]
      · simp [hzero, haccess]
    · rw [m.perform_of_not_accessible hrange haccess]
      simp [haccess]

/-- Nothing is changed by an operation that is refused, has an empty range or only looks. -/
theorem perform_of_end? {operation : Operation} (m : Memory) (h : operation.end? = none) :
    (m.perform operation).2 = m := by
  cases hrange : operation.range? with
  | none =>
    obtain ⟨offset, size, rfl⟩ := range?_eq_none_iff.mp hrange
    rfl
  | some range =>
    obtain ⟨offset, size⟩ := range
    by_cases haccess : Accessible offset size
    · have hzero : size = 0 := by
        by_contra hsize
        rw [end?_of_range? hrange, if_pos ⟨hsize, haccess⟩] at h
        cases h
      subst hzero
      obtain ⟨-, hbytes, hsize⟩ := m.perform_of_accessible hrange haccess
      rw [Contents.applyTo_of_empty _ hrange] at hbytes
      exact ext_byteAt hsize hbytes
    · rw [m.perform_of_not_accessible hrange haccess]

theorem end?_le_limit {operation : Operation} {stop : Nat} (h : operation.end? = some stop) :
    stop ≤ limit := by
  obtain ⟨⟨offset, size⟩, -, hstop⟩ := Option.bind_eq_some_iff.mp h
  obtain ⟨⟨-, hlimit⟩, hend⟩ := Option.ite_none_right_eq_some.mp hstop
  rwa [← Option.some.inj hend]

/-- A memory never shrinks. -/
theorem le_size_perform (m : Memory) (operation : Operation) :
    m.size ≤ (m.perform operation).2.size := by
  rw [size_perform]
  exact Nat.le_max_left _ _

/-- No operation takes a memory beyond the limit. -/
theorem size_perform_le (operation : Operation) (h : m.size ≤ limit) :
    (m.perform operation).2.size ≤ limit := by
  rw [size_perform]
  cases hend : operation.end? with
  | none => exact Nat.max_le.mpr ⟨h, Nat.zero_le limit⟩
  | some stop => exact Nat.max_le.mpr ⟨h, end?_le_limit hend⟩

/-- What is not written stays: a read changes no byte. -/
theorem byteAt_read (m : Memory) (offset size : Nat) :
    (m.read offset size).2.byteAt = m.byteAt := by
  have hstep : (m.read offset size).2.byteAt = Contents.step m.byteAt (.read offset size) :=
    m.byteAt_perform (.read offset size)
  have happly : Operation.applyTo m.byteAt (.read offset size) = m.byteAt := rfl
  rw [hstep, Contents.step, happly, ite_self]

/-- A word that is written changes no byte outside its range. -/
theorem byteAt_writeWord (m : Memory) (offset : Nat) (word : Word)
    (h : address < offset ∨ offset + 8 ≤ address) :
    (m.writeWord offset word).2.byteAt address = m.byteAt address := by
  have hstep : (m.writeWord offset word).2.byteAt =
      Contents.step m.byteAt (.writeWord offset word) := m.byteAt_perform (.writeWord offset word)
  have houtside : ¬ (offset ≤ address ∧ address < offset + 8) := by omega
  rw [hstep, Contents.step, Operation.applyTo]
  split_ifs
  · exact if_neg houtside
  · rfl

/-! ### Any operations -/

theorem byteAt_performAll (m : Memory) (operations : List Operation) :
    (m.performAll operations).byteAt = operations.foldl Contents.step m.byteAt := by
  -- The memory is general: the contents of the one after the first operation are its step.
  induction operations generalizing m with
  | nil => rfl
  | cons operation operations ih =>
    rw [List.foldl_cons, ← byteAt_perform]
    exact ih (m.perform operation).2

theorem size_performAll (m : Memory) (operations : List Operation) :
    (m.performAll operations).size = (operations.filterMap Operation.end?).foldl max m.size := by
  induction operations generalizing m with
  | nil => rfl
  | cons operation operations ih =>
    have hrest : (m.performAll (operation :: operations)).size = _ := ih (m.perform operation).2
    rw [hrest, size_perform, List.filterMap_cons]
    cases operation.end? with
    | none => rw [Option.getD_none, Nat.max_zero]
    | some stop => rfl

theorem foldl_max_le {ends : List Nat} {first bound : Nat} (hfirst : first ≤ bound)
    (h : ∀ stop ∈ ends, stop ≤ bound) : ends.foldl max first ≤ bound := by
  induction ends generalizing first with
  | nil => exact hfirst
  | cons stop ends ih =>
    obtain ⟨hstop, hends⟩ := List.forall_mem_cons.mp h
    exact ih (Nat.max_le.mpr ⟨hfirst, hstop⟩) hends

/-- No operations take a memory beyond the limit. -/
theorem size_performAll_le (operations : List Operation) :
    (performAll {} operations).size ≤ limit := by
  rw [size_performAll]
  refine foldl_max_le (Nat.zero_le limit) fun stop hstop => ?_
  obtain ⟨operation, -, hend⟩ := List.mem_filterMap.mp hstop
  exact end?_le_limit hend

/-- A range that can be read can be looked at, and shows the same. -/
theorem peek_of_read (h : (m.read offset size).1 = .ok data) : m.peek offset size = .ok data := by
  rw [read_eq] at h
  split_ifs at h with haccess
  have hsize : size ≤ Bytes.maxSize := by
    have hlimit : limit ≤ Bytes.maxSize := by decide
    rcases haccess with hzero | hend <;> omega
  rw [peek, if_pos hsize]
  exact h

/-- **Memory is a function from addresses to bytes** that is zero at first and is changed by the
writes that succeed.  After any operations the memory shows this function, and the next operation
returns what the function has (words with their most significant byte first), unless its range is
not empty and ends beyond the limit: then it is refused.  The size is the greatest end of a range
that was touched.  An operation that touches nothing changes nothing, to extend changes no byte, and
a range that can be read can be looked at with the same result. -/
theorem refines_contents (operations : List Operation) :
    let m := performAll {} operations
    let c := Contents.after operations
    m.byteAt = c ∧
    (∀ address, m.size ≤ address ∨ maxPosition < address → c address = 0) ∧
    m.size = (operations.filterMap Operation.end?).foldl max 0 ∧ m.size ≤ limit ∧
    (∀ operation : Operation, operation.Bounded →
      (m.perform operation).1 = match operation.fault? with
        | some fault => .error fault
        | none => .ok (operation.value c)) ∧
    (∀ operation : Operation, m.size ≤ (m.perform operation).2.size ∧
      (operation.end? = none → (m.perform operation).2 = m)) ∧
    (∀ offset size, (m.extend offset size).2.byteAt = m.byteAt) ∧
    ∀ offset size data, (m.read offset size).1 = .ok data → m.peek offset size = .ok data := by
  intro m c
  have hbytes : m.byteAt = c := byteAt_performAll {} operations
  have hlimit : m.size ≤ limit := size_performAll_le operations
  refine ⟨hbytes, ?_, size_performAll {} operations, hlimit, ?_, ?_, ?_, ?_⟩
  · intro address haddress
    have hpositions : limit ≤ maxPosition := by decide
    rw [← hbytes]
    exact byteAt_of_size_le (by omega)
  · intro operation hbounded
    rw [← hbytes]
    exact m.perform_fst hbounded
  · intro operation
    refine ⟨?_, m.perform_of_end?⟩
    rw [size_perform]
    exact Nat.le_max_left _ _
  · intro offset size
    have hstep := m.byteAt_perform (.extend offset size)
    rw [Contents.step] at hstep
    exact hstep.trans (ite_self _)
  · intro offset size data hread
    exact peek_of_read hread

/-- A word that is written over the second of two bytes, and a word that is read from the middle of
it to beyond the end.  An extension that is refused comes in between. -/
theorem refines_contents_overlap :
    let operations : List Operation :=
      [.write 3 ⟨#[1, 2]⟩, .writeWord 4 0x0a0b0c0d0e0f1011, .extend limit 1, .peek 100 8]
    let m := performAll {} operations
    Operation.Bounded (.peek 2 4) ∧
      m.peek 2 4 = .ok ⟨#[0, 1, 0x0a, 0x0b]⟩ ∧
      (m.readWord 5).1 = .ok 0x0b0c0d0e0f101100 ∧
      m.size = 12 ∧
      (m.extend limit 1).1 = .error (.memoryLimit limit 1) ∧
      m.byteAt 11 = 0x11 ∧ m.byteAt 12 = 0 := by
  intro operations m
  have hbounded : Operation.Bounded (.peek 2 4) := by
    show 4 ≤ Bytes.maxSize
    decide
  obtain ⟨hbytes, -, hsize, -, hanswer, -⟩ := refines_contents operations
  refine ⟨hbounded, ?_, ?_, hsize.trans (by decide +kernel), ?_, ?_, ?_⟩
  · exact (hanswer (.peek 2 4) hbounded).trans (by decide +kernel)
  · exact (hanswer (.readWord 5) trivial).trans (by decide +kernel)
  · exact (hanswer (.extend limit 1) trivial).trans (by decide +kernel)
  · exact (congrFun hbytes 11).trans (by decide +kernel)
  · exact (congrFun hbytes 12).trans (by decide +kernel)

end BytecodeDebugger.Memory
