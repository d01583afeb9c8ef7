import BytecodeDebugger.CommandLine.Basic

/-!
# The program

The command line program on a terminal: it reads the files that its arguments name, holds the
pauses of a run with the lines that are typed in, and prints everything as soon as it is known.
What is decided, and how it is worded, is decided elsewhere.
-/

namespace BytecodeDebugger.Terminal

/-- A run under the prompt. -/
abbrev PromptRun := Run LineBreakpoints Prompt

/-- The files of these names, as far as they can be read. -/
def readFiles (paths : List String) : IO CommandLine.Files :=
  paths.filterMapM fun (path : String) => do
    try return some (path, ← IO.FS.readFile path)
    catch _ => return none

/-- Prints what the prompt has announced. -/
def present (p : Prompt) : IO Prompt := do
  let output ← IO.getStdout
  output.putStr p.printed
  output.flush
  return { p with notices := [] }

/-- Takes lines that are typed in until one ends the pause. -/
partial def converse (p : Prompt) (s : Session) : IO ((HandlerEnd × Prompt) × Session) := do
  let p ← present p.await
  match Text.lines (← (← IO.getStdin).getLine) with
  | [] => return p.finish.run s
  | line :: _ =>
    match (p.turn line).run s with
    | ((.goOn, p), s) => converse p s
    | ((.ended how, p), s) => return ((how, p), s)

/-- Holds a pause. -/
def onPause (p : Prompt) (s : Session) : IO ((HandlerEnd × Prompt) × Session) :=
  match p.input with
  | .list => return p.onPause.run s
  | .typed _ =>
    match p.announcePause.run s with
    | ((.ok (), p), s) => converse p s
    | ((.error error, p), s) => return ((.failed error, p), s)

/-- Holds the pause before an instruction, if there is one. -/
def pause (i : Interpreter) (f : Fetched) (r : PromptRun) : IO (Option Ending × PromptRun) :=
  match f.pause with
  | none => return (none, r)
  | some reason => do
    let r := Interpreter.beginPause reason f.hit r
    let ((how, p), s) ← onPause r.handler (i.openSession reason f.hit r)
    return Interpreter.closeSession how (← present p) s r

/-- Carries out one instruction after another until the run ends. -/
partial def loop (i : Interpreter) (r : PromptRun) : IO (Ending × PromptRun) := do
  let (f, r) := i.fetch r
  match ← pause i f r with
  | (some ending, r) => return (ending, r)
  | (none, r) =>
    match Interpreter.dispatch f r with
    | (some ending, r) => return (ending, r)
    | (none, r) => loop i r

/-- Runs what the command line asks for, and tells what it leaves behind. -/
def run (setup : CommandLine.Setup) : IO CommandLine.Outcome := do
  let start : PromptRun :=
    { frame := setup.frame
      oracle := setup.debugger.breakpoints
      handler := CommandLine.promptOf .erasing setup.commands [] }
  let r := start.enter
  let (ending, r) ← match r.frame.precompile? with
    | some routine => pure (Interpreter.runPrecompile routine r)
    | none => loop setup.debugger.interpreter r
  return CommandLine.conclude ending (r.leave ending).frame

/-- Prints the outcome of the program and returns its exit code. -/
def report (outcome : CommandLine.Outcome) : IO UInt32 := do
  (← IO.getStdout).putStr outcome.output
  (← IO.getStderr).putStr outcome.errors
  return UInt32.ofNat outcome.exitCode

end BytecodeDebugger.Terminal

/-- The command line program. -/
def main (arguments : List String) : IO UInt32 := do
  let invocation := BytecodeDebugger.CommandLine.Invocation.ofArguments? arguments
  let files ← BytecodeDebugger.Terminal.readFiles ((invocation.map (·.paths)).getD [])
  match BytecodeDebugger.CommandLine.prepare files invocation with
  | .over outcome => BytecodeDebugger.Terminal.report outcome
  | .ready setup output => do
    IO.print output
    BytecodeDebugger.Terminal.report (← BytecodeDebugger.Terminal.run setup)
