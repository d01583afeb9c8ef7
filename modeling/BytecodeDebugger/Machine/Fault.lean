import BytecodeDebugger.Bytes
import BytecodeDebugger.Text.Hex

/-!
# Faults

The ways in which an operation of the machine can fail.  Running to an end is no fault.
-/

namespace BytecodeDebugger

/-- Why an operation of the machine failed. -/
inductive Fault where
  /-- The stack holds fewer words than the operation takes. -/
  | stackUnderflow (needed available : Nat)
  | stackOverflow (limit : Nat)
  /-- The byte is no instruction, or the instruction that always fails. -/
  | invalidInstruction (opcode : UInt8)
  /-- The target of a jump is not marked as one. -/
  | invalidJump (destination : Word)
  /-- The range reaches beyond the memory limit. -/
  | memoryLimit (offset size : Nat)
  /-- The program asked to fail, and gave these bytes as its reason. -/
  | reverted (data : ByteArray)
  | precompile (reason : String)
  /-- An index or a slice lies outside what it is taken from, or a byte string would be longer than
  there can be.  No instruction brings this about. -/
  | outOfRange
deriving DecidableEq

def Fault.message : Fault → String
  | stackUnderflow needed available =>
    "Stack underflow: needed " ++ toString needed ++ " items, found " ++ toString available
  | stackOverflow limit => "Stack overflow: limit is " ++ toString limit ++ " items"
  | invalidInstruction opcode => "Invalid instruction: 0x" ++ Text.Hex.padded 2 opcode.toNat
  | invalidJump destination => "Invalid jump destination: " ++ toString destination.toNat
  | memoryLimit offset size =>
    "Memory access out of range: offset " ++ toString offset ++ ", size " ++ toString size
  | reverted data =>
    "Execution reverted (" ++ toString data.size ++ " bytes of revert data)"
  | precompile reason => "Precompile failed: " ++ reason
  | outOfRange => "Index out of range"

end BytecodeDebugger
