import BytecodeDebugger.Word

/-!
# Byte strings

A byte string is also a function on all natural numbers: `byteAt` gives its byte at an index and
zero beyond its end.  `window` cuts any range out of that function, and `slice?` and `splice` work
inside the string itself.  Words are stored with their most significant byte first.

Ranges are clamped to the size of the string before a byte is copied, so a window far beyond the
end costs no more than the zeros it is made of.
-/

namespace BytecodeDebugger.Bytes

/-- The greatest number of bytes that a string can have: the greatest number of 63 bits. -/
def maxSize : Nat := 0x7fff_ffff_ffff_ffff

/-- Byte strings are equal if their bytes are. -/
instance decidableEq : DecidableEq ByteArray :=
  ByteArray.instDecidableEq

/-- The byte at an index, zero beyond the end. -/
def byteAt (bytes : ByteArray) (i : Nat) : UInt8 :=
  bytes[i]?.getD 0

def zeros (size : Nat) : ByteArray :=
  ⟨Array.replicate size 0⟩

/-- The bytes from `start` on and before `stop`, if the string has all of them. -/
def slice? (bytes : ByteArray) (start stop : Nat) : Option ByteArray :=
  if start ≤ stop ∧ stop ≤ bytes.size then some (bytes.extract start stop) else none

/-- The string brought to at least the given size by zeros at its end. -/
def extendTo (bytes : ByteArray) (size : Nat) : ByteArray :=
  if bytes.size < size then bytes ++ zeros (size - bytes.size) else bytes

/-- The `size` bytes from `offset` on, with zeros for those beyond the end. -/
def window (bytes : ByteArray) (offset size : Nat) : ByteArray :=
  extendTo (bytes.extract (min offset bytes.size) (min (offset + size) bytes.size)) size

/-- The string with `data` in place of its bytes from `offset` on.  The range of `data` is meant to
lie inside the string. -/
def splice (bytes : ByteArray) (offset : Nat) (data : ByteArray) : ByteArray :=
  data.copySlice 0 bytes offset data.size

/-- The word that a byte string writes; of more than eight bytes only the last eight count. -/
def toWord (bytes : ByteArray) : Word :=
  bytes.data.foldl (fun word byte => word <<< 8 ||| byte.toUInt64) 0

/-- The eight bytes of a word. -/
def ofWord (word : Word) : ByteArray :=
  ⟨#[(word >>> 56).toUInt8, (word >>> 48).toUInt8, (word >>> 40).toUInt8, (word >>> 32).toUInt8,
    (word >>> 24).toUInt8, (word >>> 16).toUInt8, (word >>> 8).toUInt8, word.toUInt8]⟩

/-- The natural number that a byte string writes. -/
def toNat (bytes : ByteArray) : Nat :=
  bytes.data.foldl (fun n byte => n * 256 + byte.toNat) 0

end BytecodeDebugger.Bytes
