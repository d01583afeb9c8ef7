import BytecodeDebugger.Breakpoint
import BytecodeDebugger.Handler.Basic
import BytecodeDebugger.Instruction.Table

/-!
# The interpreter

A run fetches one instruction after another.  Before an instruction is carried out the oracle is
asked about its position, and the run pauses there if it says so or if the pause before asked for
one instruction only.  During a pause the handler holds its dialogue; after it the run goes on, or
ends because the handler failed, broke off, or left the pause unended.

`Interpreter.fetch`, `Interpreter.openSession`, `Interpreter.closeSession` and
`Interpreter.dispatch` are the parts of a step, and `Interpreter.step` puts them together.  Programs
need not end, so `Interpreter.loop` takes the greatest number of steps.

A run starts with `Run.enter` and ends with `Run.leave`, whichever way it ends, and the journal has
one event for either.  The status of its frame says then whether it came to its end, unless a
precompiled routine has left another one (`RunStatus.atEnd`).
-/

namespace BytecodeDebugger

/-- Why the debugger failed. -/
inductive RunError where
  /-- A session refused a request. -/
  | session (error : SessionError)
  | machine (fault : Fault)
  /-- A handler left a pause unended. -/
  | notReleased
  | handler (error : HandlerError)
deriving DecidableEq

def RunError.message : RunError → String
  | session error => error.message
  | machine fault => fault.message
  | notReleased => "Debug session was not released (continue or step required)"
  | handler error => error.message

/-- How a run ended. -/
inductive Ending where
  | completed
  | failed (error : RunError)
  /-- A handler broke off. -/
  | crashed
deriving DecidableEq

/-- How far a run has come when it is over.  One that did not come to its end has failed if it was
still running, but a precompiled routine may have left it otherwise. -/
def RunStatus.atEnd (status : RunStatus) : Ending → RunStatus
  | .completed => .halted
  | _ => if status = .running then .failed else status

/-- A run under way, with an oracle and a handler. -/
structure Run (ω σ : Type) where
  frame : Frame
  oracle : ω
  handler : σ
  /-- Whether the pause before asked for one instruction only. -/
  stepping : Bool := false
  journal : Journal := {}

namespace Run

variable {ω σ : Type}

/-- Records an event. -/
def record (r : Run ω σ) (event : Event) : Run ω σ :=
  { r with journal := r.journal.add event }

/-- Sets how far the run has come. -/
def setStatus (r : Run ω σ) (status : RunStatus) : Run ω σ :=
  { r with frame := { r.frame with status } }

/-- Carries out an action on the machine. -/
def perform {α : Type} (r : Run ω σ) (action : Action α) : Except Fault α × Run ω σ :=
  -- Taken apart first, so that the action is the only one to hold the machine.
  let { frame, oracle, handler, stepping, journal } := r
  let (result, frame) := frame.perform action
  (result, { frame, oracle, handler, stepping, journal })

/-- Runs a precompiled routine. -/
def call (r : Run ω σ) (routine : Precompile) : Except Fault Unit × Run ω σ :=
  let (result, frame) := r.frame.call routine
  (result, { r with frame })

/-- The start of a run: nothing is handed back any more from an earlier one. -/
def enter (r : Run ω σ) : Run ω σ :=
  let r := r.record (.started r.frame.address r.frame.machine.position)
  (r.perform (Action.setReturnData ByteArray.empty)).2.setStatus .running

/-- The end of a run. -/
def leave (r : Run ω σ) (ending : Ending) : Run ω σ :=
  let r := r.setStatus (r.frame.status.atEnd ending)
  let machine := r.frame.machine
  r.record (.ended r.frame.status machine.position machine.stack.depth)

end Run

/-- An instruction that was fetched and what the oracle says about it. -/
structure Fetched where
  position : Nat
  opcode : UInt8
  /-- What the opcode stands for, if it stands for anything. -/
  entry : Option OpcodeEntry
  /-- What the oracle says about the position. -/
  hit : Hit
  /-- Why the run pauses before the instruction, if it does. -/
  pause : Option PauseReason

/-- What programs are run with: an opcode table and, for the pauses, the source text. -/
structure Interpreter where
  opcodes : OpcodeTable := .reference
  source : Option SourceText := none

namespace Interpreter

variable {ω σ : Type} [BreakpointOracle ω]

/-- Whether and why a run pauses. -/
def pauseReason (stepping : Bool) (hit : Hit) : Option PauseReason :=
  if stepping then some .step else if hit.isBreakpoint then some .breakpoint else none

/-- Fetches the next instruction and asks the oracle about it. -/
def fetch (i : Interpreter) (r : Run ω σ) : Fetched × Run ω σ :=
  let machine := r.frame.machine
  let position := machine.position
  let (opcode, code) := machine.code.next
  let entry := i.opcodes.get? opcode
  let hit := BreakpointOracle.check r.oracle position
  -- From here on the cursor is behind the opcode, during the pause as well.
  let r := { r with frame := { r.frame with machine := { r.frame.machine with code } } }
  ({ position, opcode, entry, hit, pause := pauseReason r.stepping hit },
    r.record (.fetched opcode (entry.map OpcodeEntry.mnemonic) position))

/-- Counts the pause, if there is a breakpoint, and records it. -/
def beginPause (reason : PauseReason) (hit : Hit) (r : Run ω σ) : Run ω σ :=
  -- A step that comes to a breakpoint counts as a pause there too.
  let r := match hit.isBreakpoint, hit.line with
    | true, some line => { r with oracle := BreakpointOracle.recordHit r.oracle line }
    | _, _ => r
  r.record (.paused hit.position hit.line reason)

/-- The session of a pause. -/
def openSession (i : Interpreter) (reason : PauseReason) (hit : Hit) (r : Run ω σ) : Session where
  machine := r.frame.machine
  position := hit.position
  line := hit.line
  reason := reason
  map := BreakpointOracle.lineMap r.oracle
  source := i.source
  journal := r.journal

/-- Takes over what a pause leaves behind: how the handler's call ended, its state, and the session.
The run goes on, or ends. -/
def closeSession (how : HandlerEnd) (state : σ) (session : Session) (r : Run ω σ) :
    Option Ending × Run ω σ :=
  -- The edits stay, whichever way the call of the handler ended.
  let r := { r with
    oracle := BreakpointOracle.withLineMap r.oracle session.map
    handler := state
    journal := session.journal }
  match how, session.resumption with
  | .returned, some resume => (none, { r with stepping := resume = .step })
  | .returned, none => (some (.failed .notReleased), r)
  | .failed error, _ => (some (.failed (.handler error)), r)
  | .crashed, _ => (some .crashed, r)

/-- Holds the pause before an instruction, if there is one. -/
def pause (i : Interpreter) (handler : Handler σ) (f : Fetched) (r : Run ω σ) :
    Option Ending × Run ω σ :=
  match f.pause with
  | none => (none, r)
  | some reason =>
    let r := beginPause reason f.hit r
    let ((how, state), session) := (handler.onPause r.handler).run (i.openSession reason f.hit r)
    closeSession how state session r

/-- What is carried out for an opcode; one that stands for nothing fails. -/
def action (f : Fetched) : Action Flow :=
  match f.entry with
  | some entry => entry.execute
  | none => throw (.invalidInstruction f.opcode)

/-- Carries out an instruction.  The run goes on, or ends. -/
def dispatch (f : Fetched) (r : Run ω σ) : Option Ending × Run ω σ :=
  match r.perform (action f) with
  | (.ok .proceed, r) => (none, r)
  | (.ok .halt, r) => (some .completed, r)
  | (.error fault, r) => (some (.failed (.machine fault)), r)

/-- Fetches an instruction, holds the pause before it, and carries it out. -/
def step (i : Interpreter) (handler : Handler σ) (r : Run ω σ) : Option Ending × Run ω σ :=
  let (f, r) := i.fetch r
  match i.pause handler f r with
  | (none, r) => dispatch f r
  | (some ending, r) => (some ending, r)

/-- Repeats `step` until the run ends, at most the given number of times. -/
def loop (i : Interpreter) (handler : Handler σ) : Nat → Run ω σ → Option (Ending × Run ω σ)
  | 0, _ => none
  | steps + 1, r =>
    match i.step handler r with
    | (none, r) => i.loop handler steps r
    | (some ending, r) => some (ending, r)

/-- Runs a precompiled routine in place of code. -/
def runPrecompile (routine : Precompile) (r : Run ω σ) : Ending × Run ω σ :=
  match (r.record (.precompile r.frame.address)).call routine with
  | (.ok (), r) => (.completed, r)
  | (.error fault, r) => (.failed (.machine fault), r)

/-- Runs a call from start to end, in at most the given number of steps.  If the call goes to a
precompiled routine there is no step, and no pause. -/
def run (i : Interpreter) (handler : Handler σ) (steps : Nat) (r : Run ω σ) :
    Option (Ending × Run ω σ) := do
  let r := r.enter
  let (ending, r) ← match r.frame.precompile? with
    | some routine => some (runPrecompile routine r)
    | none => i.loop handler steps r
  return (ending, r.leave ending)

end Interpreter

end BytecodeDebugger
