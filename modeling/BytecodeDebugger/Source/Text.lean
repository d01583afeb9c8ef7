import BytecodeDebugger.Text.Line
import BytecodeDebugger.Word

/-!
# Source texts

The text of the program that was compiled, by line numbers from one on.
-/

namespace BytecodeDebugger

/-- A line of source together with its number. -/
structure SourceLine where
  number : Nat
  text : String
deriving DecidableEq, Repr

/-- A source text. -/
structure SourceText where
  /-- The lines, of which the first has number one. -/
  lines : Array String := #[]
deriving DecidableEq, Repr

namespace SourceText

/-- The source text that a file holds. -/
def ofString (s : String) : SourceText :=
  ⟨(Text.lines s).toArray⟩

def size (s : SourceText) : Nat :=
  s.lines.size

def line? (s : SourceText) : Nat → Option String
  | 0 => none
  | below + 1 => s.lines[below]?

/-- At most `count` lines from number `first` on, up to the first that does not exist. -/
def linesFrom (s : SourceText) (first : Nat) : Nat → List SourceLine
  | 0 => []
  | count + 1 =>
    match s.line? first with
    | some text => ⟨first, text⟩ :: s.linesFrom (first + 1) count
    | none => []

/-- The lines whose numbers are at most `radius` away from `line`. -/
def context (s : SourceText) (line radius : Nat) : List SourceLine :=
  let first := max (line - radius) 1
  let last := saturatingAdd maxLine line radius
  s.linesFrom first (last + 1 - first)

end SourceText

end BytecodeDebugger
