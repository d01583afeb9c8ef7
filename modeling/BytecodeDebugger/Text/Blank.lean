/-!
# White space

Which characters separate words, and the two operations on a text that rest on it: `trim` takes
the white space off both ends, `words` cuts a text into its maximal runs of other characters.

The class is Unicode's property `White_Space`.  It is wider than ASCII white space (it has the
no-break space and the ideographic space) and narrower than "invisible": the zero width space, the
byte order mark and the control characters U+001C to U+001F are ordinary characters here.
-/

namespace BytecodeDebugger.Text

/-- The ranges of code points, both ends included, that make up `White_Space`. -/
def blankRanges : List (Nat × Nat) :=
  [(0x09, 0x0d), (0x20, 0x20), (0x85, 0x85), (0xa0, 0xa0), (0x1680, 0x1680), (0x2000, 0x200a),
    (0x2028, 0x2029), (0x202f, 0x202f), (0x205f, 0x205f), (0x3000, 0x3000)]

def isBlank (c : Char) : Bool :=
  blankRanges.any fun range => range.1 ≤ c.toNat && c.toNat ≤ range.2

/-- A list of characters without the white space at its two ends. -/
def trimChars (cs : List Char) : List Char :=
  ((cs.dropWhile isBlank).reverse.dropWhile isBlank).reverse

/-- A text without the white space at its two ends. -/
def trim (s : String) : String :=
  String.ofList (trimChars s.toList)

/-- The words of a list of characters: its maximal runs without white space, in order. -/
def wordsOfChars (cs : List Char) : List (List Char) :=
  go [] cs
where
  /-- Closes the run read so far, whose characters come last first; an empty run is no word. -/
  close (run : List Char) (rest : List (List Char)) : List (List Char) :=
    if run.isEmpty then rest else run.reverse :: rest
  /-- Reads on, with `run` the characters since the last white space, last first. -/
  go (run : List Char) : List Char → List (List Char)
    | [] => close run []
    | c :: cs => if isBlank c then close run (go [] cs) else go (c :: run) cs

/-- The words of a text, in order. -/
def words (s : String) : List String :=
  (wordsOfChars s.toList).map String.ofList

end BytecodeDebugger.Text
