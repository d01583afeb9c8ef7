/-!
# Lines

A text cut into lines.  A line ends before a line feed, or before a carriage return that stands in
front of one; the last line may do without.  A carriage return anywhere else belongs to its line.
-/

namespace BytecodeDebugger.Text

/-- The lines of a list of characters. -/
def linesOfChars (cs : List Char) : List (List Char) :=
  go [] cs
where
  /-- The line whose characters come last first, without a carriage return at its end. -/
  close : List Char → List Char
    | '\r' :: line => line.reverse
    | line => line.reverse
  /-- Reads on, with `line` the characters of the current line, last first. -/
  go (line : List Char) : List Char → List (List Char)
    | [] => if line.isEmpty then [] else [line.reverse]
    | c :: cs => if c = '\n' then close line :: go [] cs else go (c :: line) cs

def lines (s : String) : List String :=
  (linesOfChars s.toList).map String.ofList

end BytecodeDebugger.Text
