import BytecodeDebugger.Instruction.Basic

/-!
# Opcode tables

What the bytes of a program stand for: each for a name and something that is carried out, or for
nothing.  `OpcodeTable.assign` is the table of an assignment of instructions to bytes, and
`OpcodeTable.reference` that of the usual assignment; but a byte may also stand for something that
is no instruction, or for an instruction under another name.

There is no instruction for an immediate of more than eight bytes, since a word holds no more.
Such opcodes still have their immediate, which is not code.
-/

namespace BytecodeDebugger

/-- The instruction that a byte usually stands for. -/
def Instruction.ofOpcode? (opcode : UInt8) : Option Instruction :=
  match opcode.toNat with
  | 0x00 => some .stop
  | 0x01 => some (.binary .add)
  | 0x02 => some (.binary .mul)
  | 0x03 => some (.binary .sub)
  | 0x04 => some (.binary .div)
  | 0x06 => some (.binary .mod)
  | 0x10 => some (.binary .lt)
  | 0x11 => some (.binary .gt)
  | 0x14 => some (.binary .eq)
  | 0x15 => some .isZero
  | 0x50 => some .pop
  | 0x51 => some .mload
  | 0x52 => some .mstore
  | 0x56 => some .jump
  | 0x57 => some .jumpi
  | 0x58 => some .pc
  | 0x5b => some .jumpDest
  | 0xf3 => some .ret
  | 0xfd => some .revert
  | 0xfe => some .invalid
  | n =>
    if h : 0x60 ≤ n ∧ n < 0x68 then some (.push ⟨n - 0x60, by omega⟩)
    else if h : 0x80 ≤ n ∧ n < 0x90 then some (.dup ⟨n - 0x80, by omega⟩)
    else if h : 0x90 ≤ n ∧ n < 0xa0 then some (.swap ⟨n - 0x90, by omega⟩)
    else none

/-- What a byte may stand for. -/
structure OpcodeEntry where
  mnemonic : String
  /-- What is carried out. -/
  execute : Action Flow

/-- What a byte stands for that stands for an instruction. -/
def Instruction.entry (x : Instruction) : OpcodeEntry :=
  { mnemonic := x.mnemonic, execute := x.execute }

/-- What the bytes stand for. -/
structure OpcodeTable where
  get? : UInt8 → Option OpcodeEntry

namespace OpcodeTable

/-- The table of an assignment of instructions to bytes. -/
def assign (instruction? : UInt8 → Option Instruction) : OpcodeTable :=
  ⟨fun opcode => (instruction? opcode).map Instruction.entry⟩

/-- The usual table. -/
def reference : OpcodeTable :=
  .assign Instruction.ofOpcode?

/-- The table in which no byte stands for anything. -/
def empty : OpcodeTable :=
  ⟨fun _ => none⟩

instance : Inhabited OpcodeTable := ⟨reference⟩

/-- Lets a byte stand for something, whatever it stood for. -/
def insert (t : OpcodeTable) (opcode : UInt8) (entry : OpcodeEntry) : OpcodeTable :=
  ⟨fun byte => if byte = opcode then some entry else t.get? byte⟩

/-- The name of what a byte stands for, or `UNKNOWN`. -/
def mnemonic (t : OpcodeTable) (opcode : UInt8) : String :=
  ((t.get? opcode).map OpcodeEntry.mnemonic).getD "UNKNOWN"

/-- The bytes that stand for something, in ascending order. -/
def opcodes (t : OpcodeTable) : List UInt8 :=
  ((List.range 256).map UInt8.ofNat).filter fun byte => (t.get? byte).isSome

def size (t : OpcodeTable) : Nat :=
  t.opcodes.length

def isEmpty (t : OpcodeTable) : Bool :=
  t.size == 0

instance : ToString OpcodeTable where
  toString t := "OpcodeTable \x7b registered: " ++ toString t.size ++ " \x7d"

end OpcodeTable

end BytecodeDebugger
