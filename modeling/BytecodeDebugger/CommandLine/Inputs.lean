import BytecodeDebugger.CommandLine.Arguments
import BytecodeDebugger.Debugger
import BytecodeDebugger.Prompt.Basic
import BytecodeDebugger.Source.LineMapFile

/-!
# Inputs

From what the command line asks for to what is run or listed: programs, addresses, line maps and
source texts, given in place or in files.  The first input that cannot be used ends the program;
lines printed before that stay printed.
-/

namespace BytecodeDebugger.CommandLine

/-- The files that can be read, by name. -/
abbrev Files := List (String × String)

/-- Why an input cannot be used. -/
inductive InputError where
  | badCode
  | unreadable (path : String)
  | badCodeFile (path : String)
  | badCallData
  | badAddress
  | longAddress (size : Nat)
  | badLineMap (path : String)
deriving DecidableEq, Repr

def InputError.message : InputError → String
  | badCode => "Invalid --code"
  | unreadable path => "Failed to read " ++ path
  | badCodeFile path => "Invalid bytecode in " ++ path
  | badCallData => "Invalid --calldata"
  | badAddress => "Invalid --code-address"
  | longAddress size =>
    "Address is " ++ toString size ++ " bytes long (at most " ++ toString Address.size ++
      " expected)"
  | badLineMap path => "Invalid source map " ++ path

/-- Work that prints lines, the latest of which comes first, and may come to an unusable input. -/
abbrev LoadM := ExceptT InputError (StateM (List String))

/-- Prints a line. -/
def printLine (line : String) : LoadM Unit :=
  modify (line :: ·)

/-- The text of a file. -/
def readFile (files : Files) (path : String) : LoadM String :=
  match files.lookup path with
  | some text => return text
  | none => throw (.unreadable path)

/-- A byte string given in place. -/
def readHex (text : String) (error : InputError) : LoadM ByteArray :=
  match Text.Hex.decode text with
  | .ok bytes => return bytes
  | .error _ => throw error

/-- The program. -/
def loadCode (files : Files) : CodeArgument → LoadM ByteArray
  | .text hex => readHex hex .badCode
  | .file path => do
    let text ← readFile files path
    readHex text (.badCodeFile path)

/-- The address that a byte string writes, if it has at most twenty bytes. -/
def addressOfBytes (bytes : ByteArray) : Except InputError Address :=
  if bytes.size ≤ Address.size then .ok (Address.ofNat (Bytes.toNat bytes))
  else .error (.longAddress bytes.size)

/-- The address that a hexadecimal text writes. -/
def readAddress (text : String) : Except InputError Address :=
  match Text.Hex.decode text with
  | .ok bytes => addressOfBytes bytes
  | .error _ => .error .badAddress

/-- A line map from a file. -/
def loadLineMap (files : Files) (path : String) : LoadM LineMap := do
  let text ← readFile files path
  match LineMap.ofFile text with
  | .ok map => return map
  | .error _ => throw (.badLineMap path)

/-- The call to be run. -/
def loadFrame (files : Files) (arguments : RunArguments) : LoadM Frame := do
  let code ← loadCode files arguments.code
  let callData ← match arguments.callData with
    | some text => readHex text .badCallData
    | none => pure ByteArray.empty
  let address ← match arguments.address with
    | some text => liftExcept (readAddress text)
    | none => pure {}
  return { machine := { code := { bytes := code }, callData }, address }
where
  /-- Takes over a result that prints nothing. -/
  liftExcept {α : Type} : Except InputError α → LoadM α
    | .ok a => pure a
    | .error error => throw error

/-- Sets a breakpoint, with a warning if no code comes from the line. -/
def setBreakpoint (d : Debugger) (line : Nat) : LoadM Debugger := do
  let (_, d) := d.setBreakpoint line
  unless d.map.isReachable line do printLine (unreachableWarning line)
  return d

/-- The debugger, with its line map, source text and breakpoints. -/
def loadDebugger (files : Files) (arguments : RunArguments) : LoadM Debugger := do
  let map ← match arguments.lineMap with
    | some path => do
      let map ← loadLineMap files path
      printLine ("Loaded source map from " ++ path ++ " (" ++ toString map.size ++ " mapped pcs)")
      pure map
    | none => pure {}
  let d := Debugger.ofLineMap map
  let d ← match arguments.source with
    | some path => do
      let source := SourceText.ofString (← readFile files path)
      printLine ("Loaded source from " ++ path ++ " (" ++ toString source.size ++ " lines)")
      pure (d.withSource source)
    | none => pure d
  -- The warnings need the line map, so the breakpoints come behind it.
  let d ← arguments.breakpoints.foldlM setBreakpoint d
  unless d.breakpointLines.isEmpty do
    printLine ("Breakpoints at lines: " ++ ", ".intercalate (d.breakpointLines.map toString))
  printLine ""
  return d

/-- What is run. -/
structure Setup where
  debugger : Debugger
  frame : Frame
  /-- The commands to carry out, if they are given. -/
  commands : Option (List String)

/-- What the arguments of a run ask for.  Commands that are to be typed in are announced. -/
def loadSetup (files : Files) (arguments : RunArguments) : LoadM Setup := do
  let frame ← loadFrame files arguments
  let debugger ← loadDebugger files arguments
  if arguments.commands.isEmpty then
    printLine "vdb - Bytecode VM Debugger"
    printLine "Type 'help' at a breakpoint for available commands."
    return { debugger, frame, commands := none }
  else return { debugger, frame, commands := some arguments.commands }

/-- The program to be listed, and its line map. -/
def loadListing (files : Files) (arguments : ListArguments) : LoadM (ByteArray × LineMap) := do
  let code ← loadCode files arguments.code
  let map ← match arguments.lineMap with
    | some path => loadLineMap files path
    | none => pure {}
  return (code, map)

end BytecodeDebugger.CommandLine
