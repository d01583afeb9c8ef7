import BytecodeDebugger.Instruction.Table

/-!
# Disassembly

The listing of a program: its bytes cut into instructions, from the first byte on.  Each entry has
its opcode and the immediate that belongs to it, which is shorter at the end of the code than the
opcode asks for.
-/

namespace BytecodeDebugger

/-- One instruction of a listing. -/
structure ListedInstruction where
  position : Nat
  opcode : UInt8
  mnemonic : String
  /-- The bytes that belong to the opcode. -/
  immediate : List UInt8
deriving DecidableEq, Repr

namespace OpcodeTable

/-- The listing of the given bytes, the first of which stands at `position`, after leaving out the
next `skipped` of them. -/
def listFrom (t : OpcodeTable) (position : Nat) : Nat → List UInt8 → List ListedInstruction
  | _, [] => []
  | skipped + 1, _ :: rest => t.listFrom (position + 1) skipped rest
  | 0, opcode :: rest =>
    let size := Opcode.immediateSize opcode
    { position, opcode, mnemonic := t.mnemonic opcode, immediate := rest.take size } ::
      t.listFrom (position + 1) size rest

/-- The listing of a program. -/
def disassemble (t : OpcodeTable) (bytes : ByteArray) : List ListedInstruction :=
  t.listFrom 0 0 bytes.data.toList

end OpcodeTable

end BytecodeDebugger
