/-!
# Words and positions

The stack machine computes with 64-bit words.  Positions in a program and offsets into memory are
natural numbers that come from words, so none of them exceeds `maxPosition`; source lines have 32
bits.  The limits are stated here once, and the operations that would pass them say what happens:
`saturatingAdd` stays at the limit.
-/

namespace BytecodeDebugger

/-- A stack element. -/
abbrev Word := UInt64

/-- The greatest position, offset, size or count: the greatest number of 64 bits. -/
def maxPosition : Nat := 0xffff_ffff_ffff_ffff

/-- The greatest line number: the greatest number of 32 bits. -/
def maxLine : Nat := 0xffff_ffff

/-- The sum of two numbers, or `limit` if that is less. -/
def saturatingAdd (limit m n : Nat) : Nat :=
  min (m + n) limit

/-- The position `n` places on, which stays at `maxPosition` once it gets there. -/
def advance (position n : Nat) : Nat :=
  saturatingAdd maxPosition position n

end BytecodeDebugger
