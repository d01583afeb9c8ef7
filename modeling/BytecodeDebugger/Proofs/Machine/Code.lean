import BytecodeDebugger.Machine.Code
import Mathlib.Logic.Function.Iterate

/-!
# Strides through code

A stride goes from a position to the one behind the instruction there and its immediate
(`Code.stride`).  A position starts an instruction if strides from the beginning lead to it
(`Code.Starts`).  Beyond the end of the code, where all bytes are zero, every stride is by one.

`Code.reaches_iff` and `Code.isJumpTarget_iff` say that the check of jump targets is about these
positions, and `Code.isJumpTarget_congr` that it looks at no byte behind the position it is asked
about.  `Code.read_eq` says what an immediate is.  `Code.OnBoundary` is what a run keeps of its
cursor: that it starts an instruction or is beyond the end.
-/

namespace BytecodeDebugger

/-! ### Positions -/

theorem Word.toNat_le_maxPosition (word : Word) : word.toNat ≤ maxPosition := by
  have hlt : word.toNat < 2 ^ 64 := word.toNat_lt
  have hmax : maxPosition + 1 = 2 ^ 64 := by decide
  omega

theorem advance_of_le {position n : Nat} (h : position + n ≤ maxPosition) :
    advance position n = position + n :=
  Nat.min_eq_left h

theorem advance_of_ge {position n : Nat} (h : maxPosition ≤ position + n) :
    advance position n = maxPosition :=
  Nat.min_eq_right h

theorem advance_advance (position m n : Nat) :
    advance (advance position m) n = advance position (m + n) := by
  simp only [advance, saturatingAdd]
  omega

namespace Bytes

theorem byteAt_of_getElem? {bytes : ByteArray} {position : Nat} {byte : UInt8}
    (h : bytes[position]? = some byte) : byteAt bytes position = byte := by
  rw [byteAt, h, Option.getD_some]

theorem maxSize_le_maxPosition : maxSize ≤ maxPosition := by
  decide

/-- Behind the longest code there are positions enough for an opcode and the longest immediate. -/
theorem maxSize_add_le : maxSize + 33 ≤ maxPosition := by
  decide

/-- A byte that is not zero shows only where there is one. -/
theorem getElem?_eq_some_iff_byteAt {bytes : ByteArray} {position : Nat} {byte : UInt8}
    (h : byte ≠ 0) : bytes[position]? = some byte ↔ byteAt bytes position = byte := by
  refine ⟨byteAt_of_getElem?, fun hbyte => ?_⟩
  rw [byteAt] at hbyte
  cases hget : bytes[position]? with
  | none =>
    rw [hget] at hbyte
    exact absurd hbyte.symm h
  | some byte' =>
    rw [hget] at hbyte
    exact congrArg some hbyte

end Bytes

namespace Opcode

/-- The opcodes with an immediate, by the size of it. -/
theorem immediateSize_of_push {opcode : UInt8} (h : 0x60 ≤ opcode.toNat ∧ opcode.toNat ≤ 0x7f) :
    immediateSize opcode = opcode.toNat - 0x60 + 1 := by
  have hpush : firstPush ≤ opcode ∧ opcode ≤ lastPush := by
    rw [UInt8.le_iff_toNat_le, UInt8.le_iff_toNat_le]
    exact h
  rw [immediateSize, if_pos hpush]
  rfl

theorem immediateSize_of_not_push {opcode : UInt8}
    (h : ¬ (0x60 ≤ opcode.toNat ∧ opcode.toNat ≤ 0x7f)) : immediateSize opcode = 0 := by
  have hpush : ¬ (firstPush ≤ opcode ∧ opcode ≤ lastPush) := by
    rw [UInt8.le_iff_toNat_le, UInt8.le_iff_toNat_le]
    exact h
  rw [immediateSize, if_neg hpush]

end Opcode

namespace Code

/-! ### Strides -/

/-- The position behind the instruction at a position. -/
def stride (bytes : ByteArray) (position : Nat) : Nat :=
  position + 1 + Opcode.immediateSize (Bytes.byteAt bytes position)

/-- The positions that strides from the beginning lead to. -/
def Starts (bytes : ByteArray) (position : Nat) : Prop :=
  ∃ n, (stride bytes)^[n] 0 = position

variable {bytes : ByteArray} {position target : Nat}

theorem starts_zero (bytes : ByteArray) : Starts bytes 0 :=
  ⟨0, rfl⟩

theorem Starts.stride (h : Starts bytes position) : Starts bytes (stride bytes position) := by
  obtain ⟨n, rfl⟩ := h
  exact ⟨n + 1, Function.iterate_succ_apply' _ n 0⟩

theorem lt_stride (bytes : ByteArray) (position : Nat) : position < stride bytes position := by
  rw [stride]
  omega

theorem add_le_iterate_stride (bytes : ByteArray) (n position : Nat) :
    position + n ≤ (stride bytes)^[n] position := by
  induction n generalizing position with
  | zero => exact Nat.le_refl position
  | succ n ih =>
    have hstride := lt_stride bytes position
    have hrest := ih (stride bytes position)
    rw [Function.iterate_succ_apply]
    omega

/-- Strides lead on to the very same position only if there are none of them, and to another one
only after the next. -/
theorem exists_iterate_stride_iff (bytes : ByteArray) (position target : Nat) :
    (∃ n, (stride bytes)^[n] position = target) ↔ position = target ∨
      position < target ∧ ∃ n, (stride bytes)^[n] (stride bytes position) = target := by
  constructor
  · rintro ⟨n, hn⟩
    cases n with
    | zero => exact Or.inl hn
    | succ n =>
      have hle := add_le_iterate_stride bytes (n + 1) position
      rw [Function.iterate_succ_apply] at hn
      exact Or.inr ⟨by rw [Function.iterate_succ_apply, hn] at hle; omega, n, hn⟩
  · rintro (h | ⟨-, n, hn⟩)
    · exact ⟨0, h⟩
    · exact ⟨n + 1, hn⟩

/-- Strides come to a position by the bytes before it. -/
theorem iterate_stride_congr {bytes' : ByteArray} {n : Nat}
    (h : ∀ i < target, Bytes.byteAt bytes' i = Bytes.byteAt bytes i)
    (hn : (stride bytes)^[n] position = target) : (stride bytes')^[n] position = target := by
  induction n generalizing position with
  | zero => exact hn
  | succ n ih =>
    -- There is a stride still to come, so the position is before the target.
    have hle := add_le_iterate_stride bytes (n + 1) position
    have hbyte := h position (by omega)
    have hstride : stride bytes' position = stride bytes position := by
      rw [stride, stride, hbyte]
    rw [Function.iterate_succ_apply] at hn ⊢
    rw [hstride]
    exact ih hn

theorem starts_congr {bytes' : ByteArray}
    (h : ∀ i < position, Bytes.byteAt bytes' i = Bytes.byteAt bytes i) :
    Starts bytes' position ↔ Starts bytes position := by
  constructor
  · rintro ⟨n, hn⟩
    exact ⟨n, iterate_stride_congr (fun i hi => (h i hi).symm) hn⟩
  · rintro ⟨n, hn⟩
    exact ⟨n, iterate_stride_congr h hn⟩

/-! ### Jump targets -/

/-- Given enough strides, a search finds a position exactly if strides lead to it. -/
theorem reaches_iff (c : Code) {strides : Nat} (h : target ≤ position + strides) :
    c.reaches target strides position = true ↔ ∃ n, (stride c.bytes)^[n] position = target := by
  induction strides generalizing position with
  | zero =>
    rw [reaches, beq_iff_eq, exists_iterate_stride_iff]
    omega
  | succ strides ih =>
    rw [reaches, exists_iterate_stride_iff]
    by_cases hlt : position < target
    · -- The target is ahead, and so it is reached after the stride or not at all.
      have hstride := lt_stride c.bytes position
      have hrest : c.reaches target strides (stride c.bytes position) = true ↔
          ∃ n, (stride c.bytes)^[n] (stride c.bytes position) = target := ih (by omega)
      rw [if_pos hlt]
      show c.reaches target strides (stride c.bytes position) = true ↔ _
      rw [hrest]
      exact ⟨fun hn => Or.inr ⟨hlt, hn⟩, fun hn => (hn.resolve_left (by omega)).2⟩
    · rw [if_neg hlt, beq_iff_eq]
      exact ⟨Or.inl, fun hn => hn.resolve_right fun hn' => hlt hn'.1⟩

/-- **Jump targets** are the positions that start an instruction, where this is the one that marks
them. -/
theorem isJumpTarget_iff (c : Code) (position : Nat) : c.isJumpTarget position = true ↔
    c.bytes[position]? = some Opcode.jumpDest ∧ Starts c.bytes position := by
  rw [isJumpTarget, Bool.and_eq_true, beq_iff_eq, c.reaches_iff (by omega)]
  rfl

/-- Whether a position is a target for jumps is a matter of the bytes up to it. -/
theorem isJumpTarget_congr {c c' : Code} (h : ∀ i ≤ position, c'.byteAt i = c.byteAt i) :
    c'.isJumpTarget position = c.isJumpTarget position := by
  have hmark : Bytes.byteAt c'.bytes position = Bytes.byteAt c.bytes position :=
    h position (Nat.le_refl position)
  have hstarts : Starts c'.bytes position ↔ Starts c.bytes position :=
    starts_congr fun i hi => h i (Nat.le_of_lt hi)
  have hne : Opcode.jumpDest ≠ 0 := by decide
  rw [Bool.eq_iff_iff, isJumpTarget_iff, isJumpTarget_iff, hstarts,
    Bytes.getElem?_eq_some_iff_byteAt hne, Bytes.getElem?_eq_some_iff_byteAt hne, hmark]

/-! ### Reading -/

theorem next_of_some {c : Code} {opcode : UInt8} (h : c.bytes[c.cursor]? = some opcode) :
    c.next = (opcode, c.seek (c.cursor + 1)) := by
  rw [next, h]
  rfl

theorem next_of_none {c : Code} (h : c.bytes[c.cursor]? = none) : c.next = (Opcode.stop, c) := by
  rw [next, h]

theorem next_bytes (c : Code) : c.next.2.bytes = c.bytes := by
  rw [next]
  split <;> rfl

/-- To take an opcode is to move the cursor by one, up to the end of the code. -/
theorem next_eq_seek (c : Code) :
    c.next.2 = c.seek (if c.cursor < c.size then c.cursor + 1 else c.cursor) := by
  by_cases h : c.cursor < c.size
  · rw [next_of_some (getElem?_pos c.bytes c.cursor h), if_pos h]
  · rw [next_of_none (getElem?_neg c.bytes c.cursor h), if_neg h]
    rfl

/-- To read is to move the cursor, as far as there are positions. -/
theorem seek_of_read {c c' : Code} {size : Nat} {data : ByteArray}
    (h : c.read size = .ok (data, c')) : c' = c.seek (advance c.cursor size) := by
  rw [read] at h
  split at h
  · cases h
  · split at h
    · exact (Prod.mk.inj (Except.ok.inj h)).2.symm
    · cases h

/-- The bytes that are copied for an immediate lie inside the code. -/
theorem slice?_read {c : Code} {size : Nat} (h : c.size ≤ maxPosition) :
    Bytes.slice? c.bytes (min c.cursor c.size) (min (advance c.cursor size) c.size) =
      some (c.bytes.extract (min c.cursor c.size) (min (c.cursor + size) c.size)) := by
  have hstop : min (advance c.cursor size) c.size = min (c.cursor + size) c.size := by
    rw [advance, saturatingAdd]
    omega
  rw [hstop]
  exact if_pos ⟨by omega, Nat.min_le_right _ _⟩

/-- **To take an immediate** is to cut a window out of the code and to go behind it. -/
theorem read_eq {c : Code} {size : Nat} (hsize : size ≤ Bytes.maxSize) (h : c.size ≤ maxPosition) :
    c.read size = .ok (Bytes.window c.bytes c.cursor size, c.seek (advance c.cursor size)) := by
  simp only [read, if_neg (Nat.not_lt.mpr hsize), slice?_read h]
  rfl

/-! ### Boundaries -/

/-- A position that starts an instruction or lies beyond the end. -/
def OnBoundary (bytes : ByteArray) (position : Nat) : Prop :=
  bytes.size ≤ position ∨ Starts bytes position

/-- A stride goes from boundary to boundary, even if the positions come to their end before it
does. -/
theorem Starts.onBoundary_advance {n : Nat} (hsize : bytes.size ≤ maxPosition)
    (h : Starts bytes position)
    (hn : Opcode.immediateSize (Bytes.byteAt bytes position) = n) :
    OnBoundary bytes (advance (position + 1) n) := by
  have hstride : Starts bytes (position + 1 + n) := hn ▸ h.stride
  by_cases hle : position + 1 + n ≤ maxPosition
  · right
    rwa [advance_of_le hle]
  · left
    rw [advance_of_ge (Nat.le_of_not_le hle)]
    exact hsize

end Code

end BytecodeDebugger
