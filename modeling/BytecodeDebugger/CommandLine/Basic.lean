import BytecodeDebugger.CommandLine.Directory
import BytecodeDebugger.CommandLine.Report

/-!
# The command line program

The program from its arguments to its exit code, as a function of the files that it can read, the
lines that are typed in, and the line editor that they go through.  `CommandLine.prepare` is what
comes before the run and `CommandLine.conclude` what comes after it; `CommandLine.execute` puts them
together around a run that is done at once, and `CommandLine.executeIn` also reads the files.
-/

namespace BytecodeDebugger.CommandLine

/-- What the program leaves behind. -/
structure Outcome where
  exitCode : Nat := 0
  output : String := ""
  errors : String := ""
deriving DecidableEq, Repr

/-- The exit code for a command line that is not understood. -/
def usageExitCode : Nat := 2

/-- The exit code for a program that broke off. -/
def crashExitCode : Nat := 101

/-- The text for a command line that is not understood. -/
def usage : String :=
  printLines ["error: the arguments are not understood", "",
    "Usage: vdb run <--code <HEX>|--code-file <FILE>> [OPTIONS]",
    "       vdb disasm <--code <HEX>|--code-file <FILE>> [--source-map <FILE>]"]

/-- The line that says which version this is. -/
def versionLine : String :=
  "vdb 0.1.0"

/-- What comes before the run: either the program is already over, or there is something to run. -/
inductive Prepared where
  | over (outcome : Outcome)
  /-- There is something to run, after printing the given text. -/
  | ready (setup : Setup) (output : String)

/-- The outcome of a failure for the given reason. -/
def failure (output message : String) : Outcome :=
  { exitCode := 1, output, errors := printLines ["Error: " ++ message] }

/-- Does what comes before the run. -/
def prepare (files : Files) : Option Invocation → Prepared
  | none => .over { exitCode := usageExitCode, errors := usage }
  | some .version => .over { output := printLines [versionLine] }
  | some (.list arguments) =>
    match (loadListing files arguments).run [] with
    | (.ok (code, map), printed) =>
      .over { output := printLines (printed.reverse ++ listingLines code map) }
    | (.error error, printed) => .over (failure (printLines printed.reverse) error.message)
  | some (.run arguments) =>
    match (loadSetup files arguments).run [] with
    | (.ok setup, printed) => .ready setup (printLines printed.reverse)
    | (.error error, printed) => .over (failure (printLines printed.reverse) error.message)

/-- The prompt that takes the commands given, or the lines that are typed in. -/
def promptOf (editor : LineEditor) (commands : Option (List String)) (typed : List String) :
    Prompt :=
  match commands with
  | some commands => Prompt.ofCommands commands
  | none => Prompt.ofLines editor typed

/-- What comes after the run.  Where it broke off, nothing does. -/
def conclude (ending : Ending) (frame : Frame) : Outcome :=
  match endingLine? ending frame with
  | some line => { output := printLines ("" :: line :: frameLines frame) }
  | none =>
    match ending with
    | .failed error => failure (printLines [""]) error.message
    | _ => { exitCode := crashExitCode }

/-- The program: its line editor, its arguments, the files that it can read, the text that is typed
in, and the greatest number of steps of a run. -/
def execute (editor : LineEditor) (arguments : List String) (files : Files) (typed : String)
    (steps : Nat) : Option Outcome :=
  match prepare files (Invocation.ofArguments? arguments) with
  | .over outcome => some outcome
  | .ready setup output => do
    let prompt := promptOf editor setup.commands (Text.lines typed)
    let result ← setup.debugger.run Handler.prompt steps prompt setup.frame {}
    let outcome := conclude result.ending result.frame
    return { outcome with output := output ++ result.handler.printed ++ outcome.output }

/-- The program, started in a directory, where nobody edits what is typed in. -/
def executeIn (d : Directory) (arguments : List String) (typed : String) (steps : Nat) :
    Option Outcome :=
  let paths := ((Invocation.ofArguments? arguments).map (·.paths)).getD []
  let (files, typed) := d.read typed paths
  execute .erasing arguments files typed steps

end BytecodeDebugger.CommandLine
