import BytecodeDebugger.Frame

/-!
# The journal

What happened, event by event: runs, the instructions fetched, pauses, and what was done during
them.  `Event` says what can happen and `Event.message` how it is worded.  A journal keeps the
events from its level on.
-/

namespace BytecodeDebugger

/-- Why a run pauses. -/
inductive PauseReason where
  | breakpoint
  /-- The pause before asked for one instruction only. -/
  | step
deriving DecidableEq, Repr

def PauseReason.name : PauseReason → String
  | breakpoint => "Breakpoint"
  | step => "Step"

/-- How a run goes on after a pause. -/
inductive Resume where
  /-- To the next breakpoint. -/
  | continue
  /-- For one instruction. -/
  | step
deriving DecidableEq, Repr

def Resume.name : Resume → String
  | .continue => "Continue"
  | .step => "Step"

/-- How much attention an event deserves. -/
inductive Level where
  /-- The course of the program. -/
  | trace
  /-- The course of the debugger. -/
  | debug
  /-- Something is amiss. -/
  | warn
deriving DecidableEq, Repr

namespace Level

def name : Level → String
  | trace => "TRACE"
  | debug => "DEBUG"
  | warn => "WARN"

/-- The rank of a level, higher for more attention. -/
def rank : Level → Nat
  | trace => 0
  | debug => 1
  | warn => 2

end Level

/-- Something that happened. -/
inductive Event where
  | started (address : Address) (position : Nat)
  | precompile (address : Address)
  /-- An opcode was fetched, which stands for what has the given name or for nothing. -/
  | fetched (opcode : UInt8) (mnemonic : Option String) (position : Nat)
  | paused (position : Nat) (line : Option Nat) (reason : PauseReason)
  | breakpointAdded (line : Nat) (isNew : Bool)
  | breakpointRemoved (line : Nat) (existed : Bool)
  | released (resume : Resume) (position : Nat)
  | ended (status : RunStatus) (position depth : Nat)
  /-- A breakpoint was set on a line without code. -/
  | unreachableBreakpoint (line : Nat)
  | skippedCommand (command reason : String)
  | rejectedCommand
deriving DecidableEq, Repr

namespace Event

/-- The level of an event. -/
def level : Event → Level
  | fetched .. => .trace
  | skippedCommand .. => .warn
  | _ => .debug

/-- A line that may be missing, as it is worded in a pause. -/
def lineName : Option Nat → String
  | some line => "Some(" ++ toString line ++ ")"
  | none => "None"

def message : Event → String
  | started address position =>
    "Computation started at " ++ address.toHex ++ " (pc: " ++ toString position ++ ")"
  | precompile address => "Running precompile at " ++ address.toHex
  | fetched opcode mnemonic position =>
    "OPCODE: 0x" ++ Text.Hex.padded 2 opcode.toNat ++ " (" ++ mnemonic.getD "UNKNOWN" ++
      ") | pc: " ++ toString position
  | paused position line reason =>
    "Paused at pc " ++ toString position ++ " (line: " ++ lineName line ++ ", reason: " ++
      reason.name ++ ")"
  | breakpointAdded line isNew =>
    "Breakpoint added at line " ++ toString line ++ " (new: " ++ toString isNew ++ ")"
  | breakpointRemoved line existed =>
    "Breakpoint removed at line " ++ toString line ++ " (existed: " ++ toString existed ++ ")"
  | released resume position =>
    "Session released with " ++ resume.name ++ " at pc " ++ toString position
  | ended status position depth =>
    "Computation ended with " ++ status.name ++ " (pc: " ++ toString position ++
      ", stack depth: " ++ toString depth ++ ")"
  | unreachableBreakpoint line =>
    "Breakpoint at line " ++ toString line ++ " has no instructions and will never trigger"
  | skippedCommand command reason =>
    "Skipping malformed command '" ++ command ++ "': " ++ reason
  | rejectedCommand => "Rejected malformed command"

end Event

/-- A record of events. -/
structure Journal where
  /-- The least level of an event that is kept. -/
  level : Level := .warn
  /-- The events kept, the latest first. -/
  latest : List Event := []
deriving DecidableEq, Repr

namespace Journal

/-- Records an event, if its level is high enough. -/
def add (j : Journal) (event : Event) : Journal :=
  if j.level.rank ≤ event.level.rank then { j with latest := event :: j.latest } else j

/-- The events kept, in the order in which they happened. -/
def events (j : Journal) : List Event :=
  j.latest.reverse

/-- An entry as a line of text. -/
def entryText (event : Event) : String :=
  event.level.name ++ " " ++ event.message

def lines (j : Journal) : List String :=
  j.events.map entryText

end Journal

end BytecodeDebugger
