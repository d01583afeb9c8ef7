import BytecodeDebugger.Bytes
import BytecodeDebugger.Machine.Fault

/-!
# Memory

Byte-addressed memory of at most `Memory.limit` bytes.  Read as `Memory.byteAt`, it is a total
function that is zero at first; its size only says how much of it has been touched.

An access first checks its range against the limit and then cannot fail: it extends the memory to
the end of the range and reads or writes there.  An access of no bytes succeeds at every offset
and changes nothing.  Operations that can fail return the memory beside their result, the old one
if they did fail.
-/

namespace BytecodeDebugger

/-- The memory of a machine. -/
structure Memory where
  /-- The bytes touched so far. -/
  bytes : ByteArray := ByteArray.empty
deriving DecidableEq

namespace Memory

/-- The greatest number of bytes. -/
def limit : Nat := 16 * 1024 * 1024

def size (m : Memory) : Nat :=
  m.bytes.size

def isEmpty (m : Memory) : Bool :=
  m.size == 0

/-- The byte at an address, zero where nothing has been touched. -/
def byteAt (m : Memory) (address : Nat) : UInt8 :=
  Bytes.byteAt m.bytes address

/-- A range is accessible if it is empty or ends within the limit. -/
def Accessible (offset size : Nat) : Prop :=
  size = 0 ∨ offset + size ≤ limit

instance (offset size : Nat) : Decidable (Accessible offset size) :=
  inferInstanceAs (Decidable (size = 0 ∨ offset + size ≤ limit))

/-- The memory touched up to the end of a range. -/
def touch (m : Memory) (offset size : Nat) : Memory :=
  if size = 0 then m else ⟨Bytes.extendTo m.bytes (offset + size)⟩

/-- Extends the memory to the end of a range. -/
def extend (m : Memory) (offset size : Nat) : Except Fault Unit × Memory :=
  if Accessible offset size then (.ok (), m.touch offset size)
  else (.error (.memoryLimit offset size), m)

/-- Reads a range, extending the memory to its end. -/
def read (m : Memory) (offset size : Nat) : Except Fault ByteArray × Memory :=
  if size = 0 then (.ok ByteArray.empty, m)
  else
    match m.extend offset size with
    | (.ok (), m) =>
      -- The memory reaches to the end of the range by now.
      match Bytes.slice? m.bytes offset (offset + size) with
      | some data => (.ok data, m)
      | none => (.error .outOfRange, m)
    | (.error fault, m) => (.error fault, m)

/-- Writes a byte string, extending the memory to its end. -/
def write (m : Memory) (offset : Nat) (data : ByteArray) : Except Fault Unit × Memory :=
  if data.size = 0 then (.ok (), m)
  else
    match m.extend offset data.size with
    | (.ok (), m) =>
      if offset + data.size ≤ m.size then (.ok (), ⟨Bytes.splice m.bytes offset data⟩)
      else (.error .outOfRange, m)
    | (.error fault, m) => (.error fault, m)

/-- Reads a word. -/
def readWord (m : Memory) (offset : Nat) : Except Fault Word × Memory :=
  let (data, m) := m.read offset 8
  (data.map Bytes.toWord, m)

/-- Writes a word. -/
def writeWord (m : Memory) (offset : Nat) (word : Word) : Except Fault Unit × Memory :=
  m.write offset (Bytes.ofWord word)

/-- The bytes of a range, without touching the memory. -/
def window (m : Memory) (offset size : Nat) : ByteArray :=
  Bytes.window m.bytes offset size

/-- The bytes of a range, without touching the memory, if a byte string can be that long. -/
def peek (m : Memory) (offset size : Nat) : Except Fault ByteArray :=
  if size ≤ Bytes.maxSize then .ok (m.window offset size) else .error .outOfRange

end Memory

end BytecodeDebugger
