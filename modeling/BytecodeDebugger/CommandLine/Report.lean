import BytecodeDebugger.Instruction.Listing
import BytecodeDebugger.Interpreter
import BytecodeDebugger.Prompt.Notice

/-!
# Reports

What is printed at the end: where and how a run ended and what it left behind, or the listing of a
program.
-/

namespace BytecodeDebugger.CommandLine

/-- The line that says how a run ended, if it ended by itself. -/
def endingLine? (ending : Ending) (frame : Frame) : Option String :=
  let position := showPosition frame.machine.position
  match ending with
  | .completed => some ("Execution halted at pc " ++ position)
  | .failed (.machine fault) =>
    some ("Execution failed at pc " ++ position ++ ": " ++ fault.message)
  | _ => none

/-- The line that shows what was handed back, if anything was. -/
def returnDataLines (data : ByteArray) : List String :=
  if data.size = 0 then [] else ["Return data: 0x" ++ Text.Hex.encode data]

/-- The lines at the end of a run, without the one that says how it ended. -/
def frameLines (frame : Frame) : List String :=
  stackLines frame.machine.stack.fromBottom ++ returnDataLines frame.machine.returnData

/-- The line of an instruction in a listing. -/
def listingLine (map : LineMap) (entry : ListedInstruction) : String :=
  let line := match map.line? entry.position with
    | some number => "line " ++ Text.alignRight 4 (toString number)
    | none => ""
  let immediate :=
    if entry.immediate.isEmpty then ""
    else "0x" ++ String.ofList (Text.Hex.encodeChars entry.immediate)
  "  0x" ++ Text.Hex.padded 4 entry.position ++ "  " ++ Text.alignLeft 10 line ++ " " ++
    Text.alignLeft 8 entry.mnemonic ++ " " ++ immediate

/-- The lines of a listing. -/
def listingLines (code : ByteArray) (map : LineMap) : List String :=
  (OpcodeTable.reference.disassemble code).map (listingLine map)

end BytecodeDebugger.CommandLine
