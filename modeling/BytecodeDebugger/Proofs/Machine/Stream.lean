import BytecodeDebugger.Proofs.Machine.Bytes
import BytecodeDebugger.Proofs.Machine.Code
import Mathlib.Tactic.SplitIfs

/-!
# Code as a stream of bytes

A code that is read goes on as zeros beyond its end.  What is taken from it is a matter of this
stream and the cursor alone: an opcode is the byte at the cursor (`Code.next_eq`), an immediate is
the bytes from there on (`Code.read_shows`), and two immediates, one after the other, are a longer
one (`Code.read_add`).  This is so wherever the cursor is: where there are no positions any more it
stays, but that is behind the end of every code, where one position shows what any other does
(`Code.window_advance`).

To read a code does no more to it than to move its cursor (`Code.access_eq_seek`).
`Code.reads_stream` follows a code through any accesses.
-/

namespace BytecodeDebugger

namespace Code

variable {c : Code} {size : Nat}

/-! ### One access -/

/-- **The next opcode** is the byte at the cursor, which goes on if it is inside the code. -/
theorem next_eq (c : Code) :
    c.next =
      (c.byteAt c.cursor, c.seek (if c.cursor < c.size then c.cursor + 1 else c.cursor)) := by
  refine Prod.ext ?_ c.next_eq_seek
  cases hbyte : c.bytes[c.cursor]? with
  | some opcode =>
    rw [next_of_some hbyte]
    exact (Bytes.byteAt_of_getElem? hbyte).symm
  | none =>
    -- The opcode that stops is the zero that the code goes on with.
    rw [next_of_none hbyte, byteAt, Bytes.byteAt, hbyte]
    rfl

/-- **An immediate** is the bytes from the cursor on. -/
theorem read_shows (hsize : size ≤ Bytes.maxSize) (h : c.size ≤ maxPosition) :
    ∃ data, c.read size = .ok (data, c.seek (advance c.cursor size)) ∧ data.size = size ∧
      ∀ i < size, data[i]? = some (c.byteAt (c.cursor + i)) := by
  refine ⟨_, read_eq hsize h, Bytes.size_window _ _ _, fun i hi => ?_⟩
  rw [Bytes.getElem?_window hi]
  rfl

/-- No byte string is long enough for more. -/
theorem read_of_maxSize_lt (c : Code) (h : Bytes.maxSize < size) :
    c.read size = .error .outOfRange := by
  rw [read]
  exact if_pos h

/-- A cursor that has come to the last position shows what it would show farther on. -/
theorem window_advance (h : c.size ≤ maxPosition) (m size : Nat) :
    Bytes.window c.bytes (advance c.cursor m) size = Bytes.window c.bytes (c.cursor + m) size := by
  by_cases hmax : c.cursor + m ≤ maxPosition
  · rw [advance_of_le hmax]
  · have hpast : maxPosition ≤ c.cursor + m := Nat.le_of_not_le hmax
    rw [advance_of_ge hpast]
    exact Bytes.window_congr_of_size_le h (h.trans hpast) size

/-- **Two immediates**, one after the other, are a longer one. -/
theorem read_add {m n : Nat} (hsize : m + n ≤ Bytes.maxSize) (h : c.size ≤ maxPosition) :
    ∃ first second c₁ c₂, c.read m = .ok (first, c₁) ∧ c₁.read n = .ok (second, c₂) ∧
      first.size = m ∧ c.read (m + n) = .ok (first ++ second, c₂) := by
  refine ⟨_, _, _, _, read_eq (by omega) h, read_eq (c := c.seek _) (by omega) h,
    Bytes.size_window _ _ _, ?_⟩
  rw [read_eq hsize h, Bytes.window_add, ← window_advance h, ← advance_advance]
  rfl

/-! ### Any accesses -/

/-- Something that is done with a code to read it. -/
inductive Access where
  | seek (position : Word)
  /-- An opcode is taken. -/
  | next
  /-- An immediate is taken. -/
  | read (size : Word)

/-- The code after an access.  What is taken from it is dropped, and an immediate that cannot be
taken leaves it as it is. -/
def access (c : Code) : Access → Code
  | .seek position => c.seek position.toNat
  | .next => c.next.2
  | .read size =>
    match c.read size.toNat with
    | .ok (_, c') => c'
    | .error _ => c

/-- The code after accesses, one after another. -/
def accessAll (c : Code) (accesses : List Access) : Code :=
  accesses.foldl access c

/-- Where an access takes the cursor in a code of the given size. -/
def Access.cursorAfter (size cursor : Nat) : Access → Nat
  | seek position => position.toNat
  | next => if cursor < size then cursor + 1 else cursor
  | read count => if count.toNat ≤ Bytes.maxSize then advance cursor count.toNat else cursor

theorem Access.cursorAfter_le {cursor : Nat} (hsize : size ≤ maxPosition)
    (hcursor : cursor ≤ maxPosition) (a : Access) : a.cursorAfter size cursor ≤ maxPosition := by
  cases a with
  | seek position => exact Word.toNat_le_maxPosition position
  | next =>
    rw [cursorAfter]
    split_ifs <;> omega
  | read count =>
    rw [cursorAfter]
    split_ifs
    · exact Nat.min_le_right _ _
    · exact hcursor

/-- **An access** only moves the cursor. -/
theorem access_eq_seek (h : c.size ≤ maxPosition) (a : Access) :
    c.access a = c.seek (a.cursorAfter c.size c.cursor) := by
  cases a with
  | seek position => rfl
  | next => exact c.next_eq_seek
  | read count =>
    rw [access, Access.cursorAfter]
    split_ifs with hcount
    · rw [read_eq hcount h]
    · rw [c.read_of_maxSize_lt (Nat.not_le.mp hcount)]
      rfl

/-- Any accesses only move the cursor, each of them from where the one before has left it. -/
theorem accessAll_eq_seek (h : c.size ≤ maxPosition) (accesses : List Access) :
    c.accessAll accesses = c.seek (accesses.foldl (Access.cursorAfter c.size) c.cursor) := by
  -- The code is general: after the first access it is the same one with another cursor.
  induction accesses generalizing c with
  | nil => rfl
  | cons a accesses ih =>
    have hfirst : c.accessAll (a :: accesses) = (c.access a).accessAll accesses := rfl
    rw [hfirst, access_eq_seek h]
    exact ih (c := c.seek _) h

theorem bytes_accessAll (h : c.size ≤ maxPosition) (accesses : List Access) :
    (c.accessAll accesses).bytes = c.bytes := by
  rw [accessAll_eq_seek h]
  rfl

theorem cursor_accessAll (h : c.size ≤ maxPosition) (accesses : List Access) :
    (c.accessAll accesses).cursor = accesses.foldl (Access.cursorAfter c.size) c.cursor := by
  rw [accessAll_eq_seek h]
  rfl

theorem cursor_accessAll_le (h : c.size ≤ maxPosition) (hcursor : c.cursor ≤ maxPosition)
    (accesses : List Access) : (c.accessAll accesses).cursor ≤ maxPosition := by
  induction accesses generalizing c with
  | nil => exact hcursor
  | cons a accesses ih =>
    have hfirst : (c.access a).cursor ≤ maxPosition := by
      rw [access_eq_seek h]
      exact a.cursorAfter_le h hcursor
    refine ih (c := c.access a) ?_ hfirst
    rw [access_eq_seek h]
    exact h

/-- **A code is read as a stream of bytes** that goes on as zeros.  Take a code that is no longer
than a byte string can be, with its cursor at any position of 64 bits, and read it by any accesses.
No byte of it changes, and the cursor is where they take it, which is such a position again.

An immediate that is then taken is as long as was asked for, if a byte string can be that long.  Its
bytes are those of the stream from the cursor on, and the cursor moves to its end, or to the last
position if that comes first.  A longer one is not taken.  In both cases the bytes to be copied lie
inside the code.  Two immediates, one after the other, are the two parts of a longer one, and leave
the cursor where that one does.  The next opcode is the byte of the stream at the cursor, which
moves by one inside the code and stays beyond its end. -/
theorem reads_stream {c₀ : Code} (hsize : c₀.size ≤ Bytes.maxSize)
    (hcursor : c₀.cursor ≤ maxPosition) (accesses : List Access) :
    let c := c₀.accessAll accesses
    c.bytes = c₀.bytes ∧
    c.cursor = accesses.foldl (Access.cursorAfter c₀.size) c₀.cursor ∧ c.cursor ≤ maxPosition ∧
    (∀ n ≤ Bytes.maxSize, ∃ data,
      c.read n = .ok (data, c.seek (min (c.cursor + n) maxPosition)) ∧ data.size = n ∧
      ∀ i < n, data[i]? = some (c₀.byteAt (c.cursor + i))) ∧
    (∀ n, Bytes.maxSize < n → c.read n = .error .outOfRange) ∧
    (∀ n, (Bytes.slice? c.bytes (min c.cursor c.size) (min (advance c.cursor n) c.size)).isSome) ∧
    (∀ m n, m + n ≤ Bytes.maxSize → ∃ first second c₁ c₂,
      c.read m = .ok (first, c₁) ∧ c₁.read n = .ok (second, c₂) ∧ first.size = m ∧
      c.read (m + n) = .ok (first ++ second, c₂)) ∧
    c.next = (c₀.byteAt c.cursor,
      c.seek (if c.cursor < c₀.size then c.cursor + 1 else c.cursor)) := by
  intro c
  have hpositions : c₀.size ≤ maxPosition := hsize.trans Bytes.maxSize_le_maxPosition
  have hbytes : c.bytes = c₀.bytes := bytes_accessAll hpositions accesses
  have hc_size : c.size ≤ maxPosition := by rwa [Code.size, hbytes]
  have hbyteAt : c.byteAt = c₀.byteAt := congrArg Bytes.byteAt hbytes
  refine ⟨hbytes, cursor_accessAll hpositions accesses,
    cursor_accessAll_le hpositions hcursor accesses, fun n hn => ?_,
    fun n => c.read_of_maxSize_lt, fun n => ?_, fun m n hmn => read_add hmn hc_size, ?_⟩
  · rw [← hbyteAt]
    exact read_shows hn hc_size
  · rw [slice?_read hc_size]
    rfl
  · rw [← hbyteAt, Code.size, ← hbytes]
    exact c.next_eq

/-- A push of two bytes that is cut off by the end of its code. -/
def cutPush : Code :=
  { bytes := ⟨#[0x61, 0xff]⟩ }

/-- The immediate is filled up with a zero.  Before that the cursor was beyond the end of the code,
where no opcode moved it, and neither did an immediate longer than a byte string can be. -/
theorem reads_stream_cut :
    let c := cutPush.accessAll [.seek 7, .next, .read 0x8000_0000_0000_0000, .seek 0, .next]
    cutPush.size ≤ Bytes.maxSize ∧ cutPush.cursor ≤ maxPosition ∧
    c.bytes = cutPush.bytes ∧ c.cursor = 1 ∧
    ∃ data, c.read 2 = .ok (data, c.seek 3) ∧ data.size = 2 ∧
      data[0]? = some 0xff ∧ data[1]? = some 0 := by
  intro c
  have hsize : cutPush.size ≤ Bytes.maxSize := by decide
  have hposition : cutPush.cursor ≤ maxPosition := by decide
  obtain ⟨hbytes, hcursor, -, hread, -⟩ := reads_stream hsize hposition
    [.seek 7, .next, .read 0x8000_0000_0000_0000, .seek 0, .next]
  obtain ⟨data, hdata, hlength, hshows⟩ := hread 2 (by decide)
  have hone : c.cursor = 1 := hcursor.trans (by decide)
  rw [hone] at hdata hshows
  exact ⟨hsize, hposition, hbytes, hone, data, hdata, hlength, hshows 0 (by decide),
    hshows 1 (by decide)⟩

/-- Not every immediate whose size is a number of 64 bits can be taken. -/
theorem not_read_every_size :
    ¬ ∀ (c : Code) (n : Word), c.size ≤ Bytes.maxSize → c.cursor ≤ maxPosition →
      ∃ data, c.read n.toNat = .ok (data, c.seek (min (c.cursor + n.toNat) maxPosition)) ∧
        data.size = n.toNat := by
  intro h
  obtain ⟨data, hread, -⟩ := h {} 0x8000_0000_0000_0000 (by decide) (by decide)
  rw [read_of_maxSize_lt _ (by decide)] at hread
  cases hread

end Code

end BytecodeDebugger
