import BytecodeDebugger.Machine.Memory
import BytecodeDebugger.Text.Numeral

/-!
# Commands

The command language of a pause.  A command is a name, or one of its short forms, and its
arguments, all separated by white space.

Arguments are read before they are counted, so a command with a bad argument and one too many is
refused for the bad one.
-/

namespace BytecodeDebugger

/-- What can be asked for during a pause. -/
inductive Command where
  | continue
  | step
  | stack
  | memory (offset length : Nat)
  | pc
  | line
  /-- Show the source lines at most `radius` away. -/
  | list (radius : Nat)
  | setBreakpoint (line : Nat)
  | deleteBreakpoint (line : Nat)
  | breakpoints
  | help
deriving DecidableEq, Repr

/-- Why a text is no command. -/
inductive CommandError where
  | empty
  | unknown (name : String)
  | missingLine (name : String)
  | badNumber (error : Text.NumberError)
  /-- A line number has more than 32 bits. -/
  | lineOutOfRange (argument : String)
  | memoryTooLong (length : Nat)
  | tooManyArguments (name : String)
deriving DecidableEq, Repr

def CommandError.message : CommandError → String
  | empty => "empty command"
  | unknown name => "unknown command '" ++ name ++ "'"
  | missingLine name => "'" ++ name ++ "' requires a line number"
  | badNumber error => error.message
  | lineOutOfRange argument => "line number out of range: " ++ argument
  | memoryTooLong length =>
    "memory length too large: " ++ toString length ++ " (at most " ++ toString Memory.limit ++ ")"
  | tooManyArguments name => "too many arguments for '" ++ name ++ "'"

namespace Command

/-- The number of bytes of memory shown if none is given. -/
def defaultMemoryLength : Nat := 64

/-- The number of lines shown on either side if none is given. -/
def defaultListRadius : Nat := 3

/-- A kind of command, which is what a name stands for. -/
inductive Kind where
  /-- A command without arguments. -/
  | plain (command : Command)
  | memory
  | list
  | setBreakpoint
  | deleteBreakpoint
deriving DecidableEq, Repr

/-- The kind of command that a name stands for. -/
def Kind.ofName? : String → Option Kind
  | "continue" | "c" => some (.plain .continue)
  | "step" | "s" | "next" | "n" => some (.plain .step)
  | "stack" | "st" => some (.plain .stack)
  | "memory" | "mem" => some .memory
  | "pc" => some (.plain .pc)
  | "line" | "l" => some (.plain .line)
  | "list" | "ls" => some .list
  | "break" | "b" => some .setBreakpoint
  | "delete" | "d" => some .deleteBreakpoint
  | "breakpoints" | "info" | "i" => some (.plain .breakpoints)
  | "help" | "h" | "?" => some (.plain .help)
  | _ => none

/-- The greatest number of arguments. -/
def Kind.maxArguments : Kind → Nat
  | plain _ => 0
  | memory => 2
  | list | setBreakpoint | deleteBreakpoint => 1

/-- Reads an argument that is any number. -/
def readArgument (argument : String) : Except CommandError Nat :=
  (Text.readNumber argument).mapError .badNumber

/-- Reads an argument that is the number of a line, or a distance between lines. -/
def readLine (argument : String) : Except CommandError Nat := do
  let n ← readArgument argument
  if n ≤ maxLine then return n else throw (.lineOutOfRange argument)

/-- Reads the argument of a command that needs the number of a line. -/
def readRequiredLine (name : String) : List String → Except CommandError Nat
  | [] => .error (.missingLine name)
  | argument :: _ => readLine argument

/-- Reads an optional argument. -/
def readOptional (read : String → Except CommandError Nat) (default : Nat) :
    Option String → Except CommandError Nat
  | some argument => read argument
  | none => .ok default

/-- A length of memory, which is at most the memory that there can be. -/
def checkLength (length : Nat) : Except CommandError Nat :=
  if length ≤ Memory.limit then .ok length else .error (.memoryTooLong length)

/-- Reads the arguments of a command, and leaves those alone that it does not take. -/
def readArguments (name : String) (arguments : List String) : Kind → Except CommandError Command
  | .plain command => return command
  | .memory => do
    let offset ← readOptional readArgument 0 arguments[0]?
    let length ← readOptional readArgument defaultMemoryLength arguments[1]?
    return .memory offset (← checkLength length)
  | .list => return .list (← readOptional readLine defaultListRadius arguments[0]?)
  | .setBreakpoint => return .setBreakpoint (← readRequiredLine name arguments)
  | .deleteBreakpoint => return .deleteBreakpoint (← readRequiredLine name arguments)

/-- Reads a command from its words. -/
def ofWords : List String → Except CommandError Command
  | [] => .error .empty
  | name :: arguments => do
    let some kind := Kind.ofName? name | throw (.unknown name)
    let command ← readArguments name arguments kind
    if arguments.length ≤ kind.maxArguments then return command
    else throw (.tooManyArguments name)

/-- Reads a command. -/
def parse (text : String) : Except CommandError Command :=
  ofWords (Text.words text)

end Command

end BytecodeDebugger
