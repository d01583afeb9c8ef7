import BytecodeDebugger.Command
import BytecodeDebugger.Journal
import BytecodeDebugger.Source.LineMap
import BytecodeDebugger.Source.Text

/-!
# Sessions

A session is what can be done during one pause: look at the machine, which stands still, edit the
breakpoints, and end the pause.  The first of `resume .continue` and `resume .step` to succeed ends
it, and from then on everything fails with `SessionError.released`.

Operations that change the session return it beside their result.
-/

namespace BytecodeDebugger

/-- Why a session refuses something. -/
inductive SessionError where
  | released
  | malformed (error : CommandError)
deriving DecidableEq, Repr

def SessionError.message : SessionError → String
  | released => "Invalid session: execution has already resumed"
  | malformed error => "Malformed command: " ++ error.message

/-- The answer to a command. -/
inductive Reply where
  /-- The stack, from the bottom up. -/
  | stack (words : List Word)
  | memory (offset : Nat) (bytes : ByteArray)
  | pc (position : Nat)
  /-- The current line and its text, as far as they are known. -/
  | line (line : Option Nat) (text : Option String)
  | listing (current : Option Nat) (lines : List SourceLine)
  /-- A breakpoint was set: whether it is new, and whether any code comes from its line. -/
  | breakpointSet (line : Nat) (added reachable : Bool)
  /-- A breakpoint was deleted: whether there was one. -/
  | breakpointDeleted (line : Nat) (existed : Bool)
  | breakpoints (lines : List Nat)
  | help
  | resumed (resume : Resume)
deriving DecidableEq

/-- A pause. -/
structure Session where
  /-- The machine, which stands still. -/
  machine : Machine
  /-- The position of the instruction that comes next. -/
  position : Nat
  line : Option Nat
  reason : PauseReason
  map : LineMap
  source : Option SourceText
  /-- How the pause was ended, once it was. -/
  resumption : Option Resume := none
  journal : Journal := {}

namespace Session

/-- Whether the pause is over. -/
def isReleased (s : Session) : Bool :=
  s.resumption.isSome

/-- A value that can be had until the pause is over. -/
def whileSuspended {α : Type} (s : Session) (value : α) : Except SessionError α :=
  if s.isReleased then .error .released else .ok value

/-- Records an event. -/
def record (s : Session) (event : Event) : Session :=
  { s with journal := s.journal.add event }

def currentText (s : Session) : Option String := do
  (← s.source).line? (← s.line)

def currentContext (s : Session) (radius : Nat) : List SourceLine :=
  match s.source, s.line with
  | some source, some line => source.context line radius
  | _, _ => []

def stack? (s : Session) : Except SessionError (List Word) :=
  s.whileSuspended s.machine.stack.fromBottom

/-- The bytes of a range of memory, which may not be longer than the memory can be. -/
def memory? (s : Session) (offset length : Nat) : Except SessionError ByteArray := do
  -- That the pause is over is noticed before the length is.
  s.whileSuspended ()
  if length ≤ Memory.limit then return s.machine.memory.window offset length
  else throw (.malformed (.memoryTooLong length))

def memorySize? (s : Session) : Except SessionError Nat :=
  s.whileSuspended s.machine.memory.size

def position? (s : Session) : Except SessionError Nat :=
  s.whileSuspended s.position

def line? (s : Session) : Except SessionError (Option Nat) :=
  s.whileSuspended s.line

/-- The bytes to be handed back so far. -/
def returnData? (s : Session) : Except SessionError ByteArray :=
  s.whileSuspended s.machine.returnData

def sourceLine? (s : Session) : Except SessionError (Option String) :=
  s.whileSuspended s.currentText

def sourceContext? (s : Session) (radius : Nat) : Except SessionError (List SourceLine) :=
  s.whileSuspended (s.currentContext radius)

def breakpoints? (s : Session) : Except SessionError (List Nat) :=
  s.whileSuspended s.map.breakpointLines

/-- Sets a breakpoint, and says whether it is new. -/
def addBreakpoint (s : Session) (line : Nat) : Except SessionError Bool × Session :=
  match s.whileSuspended (!s.map.hasBreakpoint line) with
  | .ok isNew =>
    (.ok isNew, { s with map := s.map.addBreakpoint line }.record (.breakpointAdded line isNew))
  | .error error => (.error error, s)

/-- Deletes a breakpoint, and says whether there was one. -/
def removeBreakpoint (s : Session) (line : Nat) : Except SessionError Bool × Session :=
  match s.whileSuspended (s.map.hasBreakpoint line) with
  | .ok existed =>
    (.ok existed,
      { s with map := s.map.removeBreakpoint line }.record (.breakpointRemoved line existed))
  | .error error => (.error error, s)

/-- Ends the pause. -/
def release (s : Session) (resume : Resume) : Except SessionError Unit × Session :=
  match s.whileSuspended () with
  | .ok () =>
    (.ok (), { s with resumption := some resume }.record (.released resume s.position))
  | .error error => (.error error, s)

/-- Carries out a command. -/
def perform (s : Session) : Command → Except SessionError Reply × Session
  | .continue =>
    let (result, s) := s.release .continue
    (result.map fun _ => .resumed .continue, s)
  | .step =>
    let (result, s) := s.release .step
    (result.map fun _ => .resumed .step, s)
  | .stack => (s.stack?.map .stack, s)
  | .memory offset length => ((s.memory? offset length).map (.memory offset), s)
  | .pc => (s.position?.map .pc, s)
  | .line => (return .line (← s.line?) (← s.sourceLine?), s)
  | .list radius => (return .listing (← s.line?) (← s.sourceContext? radius), s)
  | .setBreakpoint line =>
    let (result, s) := s.addBreakpoint line
    (result.map fun added => .breakpointSet line added (s.map.isReachable line), s)
  | .deleteBreakpoint line =>
    let (result, s) := s.removeBreakpoint line
    (result.map (.breakpointDeleted line), s)
  | .breakpoints => (s.breakpoints?.map .breakpoints, s)
  | .help => (s.whileSuspended .help, s)

/-- Reads a command and carries it out.  That the pause is over is noticed before the text is
read. -/
def execute (s : Session) (text : String) : Except SessionError Reply × Session :=
  match s.whileSuspended () with
  | .ok () =>
    match Command.parse text with
    | .ok command => s.perform command
    | .error error => (.error (.malformed error), s)
  | .error error => (.error error, s)

end Session

end BytecodeDebugger
