import BytecodeDebugger.Machine.Basic

/-!
# Instructions

The instruction set: what the instructions are, how they are called, and what each does to the
machine.

An instruction runs with the cursor just behind its opcode.  It takes all its operands at once, so
on a stack that is too shallow nothing has changed; a later fault leaves the operands taken.
-/

namespace BytecodeDebugger

/-- An operation on two words. -/
inductive BinaryOp where
  /-- Addition modulo `2 ^ 64`. -/
  | add
  /-- Multiplication modulo `2 ^ 64`. -/
  | mul
  /-- Subtraction modulo `2 ^ 64`. -/
  | sub
  /-- Division rounding down, zero for a zero divisor. -/
  | div
  /-- The remainder, zero for a zero divisor. -/
  | mod
  | lt
  | gt
  | eq
deriving DecidableEq, Repr

namespace BinaryOp

/-- The word that stands for a truth value. -/
def truth (b : Bool) : Word :=
  if b then 1 else 0

/-- The result for the top word `a` and the word `b` below it. -/
def apply (op : BinaryOp) (a b : Word) : Word :=
  match op with
  | add => a + b
  | mul => a * b
  | sub => a - b
  | div => if b = 0 then 0 else a / b
  | mod => if b = 0 then 0 else a % b
  | lt => truth (a < b)
  | gt => truth (b < a)
  | eq => truth (a = b)

/-- The name of the instruction. -/
def mnemonic : BinaryOp → String
  | add => "ADD"
  | mul => "MUL"
  | sub => "SUB"
  | div => "DIV"
  | mod => "MOD"
  | lt => "LT"
  | gt => "GT"
  | eq => "EQ"

end BinaryOp

/-- An instruction. -/
inductive Instruction where
  /-- Ends the run. -/
  | stop
  /-- Replaces the two topmost words by the result of an operation on them. -/
  | binary (op : BinaryOp)
  /-- Replaces the top word by whether it is zero. -/
  | isZero
  /-- Drops the top word. -/
  | pop
  /-- Replaces the top word, an offset, by the word in memory there. -/
  | mload
  /-- Takes an offset and a word, and stores the word there. -/
  | mstore
  /-- Takes a position and goes there. -/
  | jump
  /-- Takes a position and a condition, and goes there unless the condition is zero. -/
  | jumpi
  /-- Pushes its own position. -/
  | pc
  /-- Does nothing, but marks a target for jumps. -/
  | jumpDest
  /-- Pushes the word written by the next `index + 1` bytes of code. -/
  | push (index : Fin 8)
  /-- Pushes a copy of the word at depth `index + 1`. -/
  | dup (index : Fin 16)
  /-- Exchanges the top word and the one `index + 1` places below. -/
  | swap (index : Fin 16)
  /-- Takes an offset and a size, hands that range of memory back, and ends the run. -/
  | ret
  /-- Takes an offset and a size, hands that range of memory back, and fails with it. -/
  | revert
  | invalid
deriving DecidableEq, Repr

/-- Whether a run goes on after an instruction. -/
inductive Flow where
  /-- The run goes on. -/
  | proceed
  /-- The run has come to its end. -/
  | halt
deriving DecidableEq, Repr

namespace Instruction

/-- The name of an instruction. -/
def mnemonic : Instruction → String
  | stop => "STOP"
  | binary op => op.mnemonic
  | isZero => "ISZERO"
  | pop => "POP"
  | mload => "MLOAD"
  | mstore => "MSTORE"
  | jump => "JUMP"
  | jumpi => "JUMPI"
  | pc => "PC"
  | jumpDest => "JUMPDEST"
  | push index => "PUSH" ++ toString (index.val + 1)
  | dup index => "DUP" ++ toString (index.val + 1)
  | swap index => "SWAP" ++ toString (index.val + 1)
  | ret => "RETURN"
  | revert => "REVERT"
  | invalid => "INVALID"

/-- Moves the cursor to a target for jumps. -/
def jumpTo (destination : Word) : Action Unit := do
  if (← get).code.isJumpTarget destination.toNat then
    modify fun m => { m with code := m.code.seek destination.toNat }
  else
    throw (.invalidJump destination)

/-- Takes an offset and a size off the stack and hands that range of memory back. -/
def handBack : Action ByteArray := do
  let (offset, size) ← Action.popPair
  let data ← Action.onMemory (·.read offset.toNat size.toNat)
  -- Not reached if the range is refused: then nothing is handed back.
  Action.setReturnData data
  return data

/-- What an instruction does to the machine. -/
def execute : Instruction → Action Flow
  | stop => return .halt
  | binary op => do
    let (a, b) ← Action.popPair
    Action.push (op.apply a b)
    return .proceed
  | isZero => do
    let a ← Action.pop
    Action.push (BinaryOp.truth (a = 0))
    return .proceed
  | pop => do
    let _ ← Action.pop
    return .proceed
  | mload => do
    let offset ← Action.pop
    let word ← Action.onMemory (·.readWord offset.toNat)
    Action.push word
    return .proceed
  | mstore => do
    let (offset, word) ← Action.popPair
    Action.onMemory (·.writeWord offset.toNat word)
    return .proceed
  | jump => do
    jumpTo (← Action.pop)
    return .proceed
  | jumpi => do
    let (destination, condition) ← Action.popPair
    unless condition = 0 do jumpTo destination
    return .proceed
  | pc => do
    -- The cursor is behind the opcode by now.
    let position := (← get).position - 1
    Action.push (UInt64.ofNat position)
    return .proceed
  | jumpDest => return .proceed
  | push index => do
    let immediate ← Action.onCode (·.read (index.val + 1))
    Action.push (Bytes.toWord immediate)
    return .proceed
  | dup index => do
    Action.onStack fun s => (s.dup (index.val + 1)).map ((), ·)
    return .proceed
  | swap index => do
    Action.onStack fun s => (s.swap (index.val + 1)).map ((), ·)
    return .proceed
  | ret => do
    let _ ← handBack
    return .halt
  | revert => do
    let data ← handBack
    throw (.reverted data)
  | invalid => throw (.invalidInstruction Opcode.invalid)

end Instruction

end BytecodeDebugger
