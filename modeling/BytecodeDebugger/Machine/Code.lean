import BytecodeDebugger.Bytes
import BytecodeDebugger.Machine.Fault

/-!
# Code

The bytes of a program together with a cursor.  The code goes on as zeros, the opcode of the
instruction that stops, beyond its end.  `Code.next` takes one opcode and `Code.read` the bytes of
an immediate.

A position starts an instruction if it can be reached from the beginning by going from instruction
to instruction.  A byte inside an immediate starts none, and so it is no target for a jump.
-/

namespace BytecodeDebugger

namespace Opcode

/-- Ends the run. -/
def stop : UInt8 := 0x00

/-- Marks a target for jumps. -/
def jumpDest : UInt8 := 0x5b

/-- The first of the opcodes with an immediate: it has one byte. -/
def firstPush : UInt8 := 0x60

/-- The last of the opcodes with an immediate: it has thirty-two bytes. -/
def lastPush : UInt8 := 0x7f

/-- The always failing instruction. -/
def invalid : UInt8 := 0xfe

/-- The number of bytes of the immediate that follows an opcode. -/
def immediateSize (opcode : UInt8) : Nat :=
  if firstPush ≤ opcode ∧ opcode ≤ lastPush then opcode.toNat - firstPush.toNat + 1 else 0

end Opcode

/-- A program and the position up to which it has been read. -/
structure Code where
  /-- The bytes of the program. -/
  bytes : ByteArray := ByteArray.empty
  /-- The position of the next byte to be read. -/
  cursor : Nat := 0
deriving DecidableEq

namespace Code

def size (c : Code) : Nat :=
  c.bytes.size

def isEmpty (c : Code) : Bool :=
  c.size == 0

/-- The byte at a position, zero beyond the end. -/
def byteAt (c : Code) (position : Nat) : UInt8 :=
  Bytes.byteAt c.bytes position

/-- Moves the cursor to any position, inside the code or not. -/
def seek (c : Code) (position : Nat) : Code :=
  { c with cursor := position }

/-- Takes the opcode at the cursor.  Beyond the end the cursor stays and the opcode is `stop`. -/
def next (c : Code) : UInt8 × Code :=
  match c.bytes[c.cursor]? with
  | some opcode => (opcode, { c with cursor := c.cursor + 1 })
  | none => (Opcode.stop, c)

/-- Takes the given number of bytes at the cursor, with zeros for those beyond the end. -/
def read (c : Code) (size : Nat) : Except Fault (ByteArray × Code) :=
  -- The cursor goes to the end of the immediate, which may be beyond the end of the code.
  let stop := advance c.cursor size
  if Bytes.maxSize < size then .error .outOfRange
  else
    match Bytes.slice? c.bytes (min c.cursor c.size) (min stop c.size) with
    | some data => .ok (Bytes.extendTo data size, c.seek stop)
    | none => .error .outOfRange

/-- Whether `target` is reached from `position` in at most the given number of strides, each of
which goes to the next instruction. -/
def reaches (c : Code) (target : Nat) : Nat → Nat → Bool
  | 0, position => position == target
  | strides + 1, position =>
    if position < target then
      c.reaches target strides (position + 1 + Opcode.immediateSize (c.byteAt position))
    else position == target

/-- Whether a position inside the code is a target for jumps: the instruction that starts there is
the one that marks targets. -/
def isJumpTarget (c : Code) (position : Nat) : Bool :=
  c.bytes[position]? == some Opcode.jumpDest && c.reaches position position 0

end Code

end BytecodeDebugger
