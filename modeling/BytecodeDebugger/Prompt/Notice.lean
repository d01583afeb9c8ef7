import BytecodeDebugger.Session.Basic
import BytecodeDebugger.Text.Column

/-!
# Notices

What the prompt prints, and how it is worded.  Every notice but the prompt itself consists of whole
lines.
-/

namespace BytecodeDebugger

/-- Texts as lines, each with a line feed at its end. -/
def printLines (lines : List String) : String :=
  String.join (lines.map (· ++ "\n"))

/-- A position as it is shown. -/
def showPosition (position : Nat) : String :=
  "0x" ++ Text.Hex.ofNat position

/-- A source line with its number. -/
def showSourceLine (number : Nat) (text : String) : String :=
  Text.alignRight 5 (toString number) ++ " | " ++ text

/-- A word in its place on the stack. -/
def showWord (place : Nat) (word : Word) : String :=
  "  " ++ Text.alignRight 4 (toString place) ++ ": 0x" ++ Text.Hex.padded 16 word.toNat ++
    " (" ++ toString word.toNat ++ ")"

/-- The lines that show a stack, given from the bottom up. -/
def stackLines (words : List Word) : List String :=
  if words.isEmpty then ["Stack is empty"]
  else
    ("Stack (" ++ toString words.length ++ " items, top first):") ::
      words.reverse.zipIdx.map fun entry => showWord entry.2 entry.1

/-- The line that shows up to sixteen bytes of memory. -/
def memoryLine (offset : Nat) (bytes : ByteArray) : String :=
  "  0x" ++ Text.Hex.padded 6 offset ++ ": " ++
    " ".intercalate (bytes.data.toList.map fun byte => Text.Hex.padded 2 byte.toNat)

/-- The lines that show a range of memory. -/
def memoryLines (offset : Nat) (bytes : ByteArray) : List String :=
  if bytes.size = 0 then ["(0 bytes)"]
  else
    (List.range ((bytes.size + 15) / 16)).map fun row =>
      memoryLine (advance offset (16 * row)) (bytes.extract (16 * row) (16 * row + 16))

/-- The lines that say what commands there are. -/
def helpLines : List String :=
  ["Available commands:",
    "",
    "  continue (c)          - Continue until the next breakpoint",
    "  step (s, next, n)     - Execute one instruction and pause again",
    "  stack (st)            - Show the stack, top first",
    "  memory (mem) [off] [len] - Show memory (default: 0 64)",
    "  pc                    - Show the program counter",
    "  line (l)              - Show the current source line",
    "  list (ls) [radius]    - Show source around the current line",
    "  break (b) <line>      - Set a breakpoint at a source line",
    "  delete (d) <line>     - Delete a breakpoint",
    "  breakpoints (info, i) - List breakpoints",
    "  help (h, ?)           - Show this help message",
    "",
    "An empty line repeats the last command. CTRL-D continues execution.",
    "",
    "Examples:",
    "  break 12",
    "  mem 0x40 32",
    "  list 5"]

/-- The warning about a breakpoint on a line without code. -/
def unreachableWarning (line : Nat) : String :=
  "Warning: no instructions map to line " ++ toString line

/-- The line that says that the run goes on. -/
def continuingLine : String :=
  "Continuing execution..."

def Reply.lines : Reply → List String
  | .stack words => stackLines words
  | .memory offset bytes => memoryLines offset bytes
  | .pc position => ["pc: " ++ showPosition position ++ " (" ++ toString position ++ ")"]
  | .line (some number) (some text) => [showSourceLine number text]
  | .line (some number) none => ["Line " ++ toString number ++ " (source not loaded)"]
  | .line none _ => ["No source line for this instruction"]
  | .listing _ [] => ["No source available"]
  | .listing current shown =>
    shown.map fun l =>
      (if some l.number = current then "-> " else "   ") ++ showSourceLine l.number l.text
  | .breakpointSet number added reachable =>
    (if added then "Breakpoint set at line " ++ toString number
      else "Breakpoint already set at line " ++ toString number) ::
      if reachable then [] else [unreachableWarning number]
  | .breakpointDeleted number existed =>
    [if existed then "Breakpoint at line " ++ toString number ++ " deleted"
      else "No breakpoint at line " ++ toString number]
  | .breakpoints [] => ["No breakpoints"]
  | .breakpoints numbers =>
    ("Breakpoints (" ++ toString numbers.length ++ "):") ::
      numbers.map fun number => "  line " ++ toString number
  | .help => helpLines
  | .resumed .continue => [continuingLine]
  | .resumed .step => []

/-- The line that announces a pause. -/
def pauseLine (position : Nat) : PauseReason → Option Nat → String
  | .breakpoint, some line =>
    "Breakpoint hit at line " ++ toString line ++ " (pc: " ++ showPosition position ++ ")"
  | .breakpoint, none => "Breakpoint hit at pc " ++ showPosition position
  | .step, some line =>
    "Stepped to line " ++ toString line ++ " (pc: " ++ showPosition position ++ ")"
  | .step, none => "Stepped to pc " ++ showPosition position ++ " (no source line)"

/-- Something that the prompt prints. -/
inductive Notice where
  /-- The run has paused; the current line and its text are given as far as they are known. -/
  | paused (position : Nat) (line : Option Nat) (reason : PauseReason) (text : Option String)
  /-- A line is waited for. -/
  | waiting
  | echo (command : String)
  | reply (answer : Reply)
  | rejected (error : CommandError)
  | interrupted
  | endOfInput
  /-- The run goes on for want of commands. -/
  | continuing
deriving DecidableEq

namespace Notice

/-- The text of the prompt. -/
def promptText : String :=
  "(vdb) "

/-- The text that is printed. -/
def text : Notice → String
  | .paused position line reason text =>
    printLines <| "" :: pauseLine position reason line ::
      match line, text with
      | some line, some text => [showSourceLine line text]
      | _, _ => []
  | .waiting => promptText
  | .echo command => printLines [promptText ++ command]
  | .reply answer => printLines answer.lines
  | .rejected error =>
    printLines ["Error: " ++ error.message, "Type 'help' for available commands."]
  | .interrupted => printLines ["CTRL-C"]
  | .endOfInput => printLines ["CTRL-D"]
  | .continuing => printLines [continuingLine]

end Notice

end BytecodeDebugger
