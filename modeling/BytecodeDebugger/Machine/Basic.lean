import BytecodeDebugger.Machine.Code
import BytecodeDebugger.Machine.Memory
import BytecodeDebugger.Machine.Stack

/-!
# The machine

The state that instructions act on, and the actions on it.  An action may fail, and what it did
before it failed stays done.
-/

namespace BytecodeDebugger

/-- The state that instructions act on. -/
structure Machine where
  /-- The program and the position in it. -/
  code : Code := {}
  /-- The operands. -/
  stack : Stack := {}
  /-- The memory. -/
  memory : Memory := {}
  /-- The bytes handed over by the caller. -/
  callData : ByteArray := ByteArray.empty
  /-- The bytes to be handed back to the caller. -/
  returnData : ByteArray := ByteArray.empty
deriving DecidableEq

/-- The position of the next byte of code to be read. -/
def Machine.position (m : Machine) : Nat :=
  m.code.cursor

/-- A step of work on the machine, which may fail. -/
abbrev Action := ExceptT Fault (StateM Machine)

namespace Action

/-- Applies an operation on the code. -/
def onCode {α : Type} (f : Code → Except Fault (α × Code)) : Action α := do
  match f (← get).code with
  | .ok (a, code) => do
    modify fun m => { m with code }
    return a
  | .error fault => throw fault

/-- Applies an operation on the stack. -/
def onStack {α : Type} (f : Stack → Except Fault (α × Stack)) : Action α := do
  match f (← get).stack with
  | .ok (a, stack) => do
    modify fun m => { m with stack }
    return a
  | .error fault => throw fault

/-- Applies an operation on the memory.  The machine is taken apart first, so that the operation is
the only one to hold the memory and changes it in place. -/
def onMemory {α : Type} (f : Memory → Except Fault α × Memory) : Action α :=
  fun { code, stack, memory, callData, returnData } =>
    let (result, memory) := f memory
    (result, { code, stack, memory, callData, returnData })

/-- Takes the top word of the stack. -/
def pop : Action Word :=
  onStack Stack.pop

/-- Takes the two topmost words of the stack, the top one first. -/
def popPair : Action (Word × Word) :=
  onStack Stack.popPair

/-- Puts a word on the stack. -/
def push (word : Word) : Action Unit :=
  onStack fun s => (s.push word).map ((), ·)

/-- Sets the bytes to be handed back. -/
def setReturnData (data : ByteArray) : Action Unit :=
  modify fun m => { m with returnData := data }

end Action

end BytecodeDebugger
