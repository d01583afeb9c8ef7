/-!
# Columns

Texts brought to the width of a column.  A text wider than the column keeps its width.
-/

namespace BytecodeDebugger.Text

/-- A text with spaces in front, up to the given width. -/
def alignRight (width : Nat) (s : String) : String :=
  String.ofList (List.replicate (width - s.length) ' ') ++ s

/-- A text with spaces after it, up to the given width. -/
def alignLeft (width : Nat) (s : String) : String :=
  s ++ String.ofList (List.replicate (width - s.length) ' ')

end BytecodeDebugger.Text
