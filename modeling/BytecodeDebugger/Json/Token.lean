import BytecodeDebugger.Json.Number

/-!
# JSON tokens

A document is cut into tokens by an automaton that takes one character at a time.  Between tokens
it skips the four white space characters of the format.  A word or a number ends where the first
character stands that cannot belong to one; two tokens without anything between them are left for
the grammar to refuse.

Inside a text a raw control character is refused, and so is an escape for half of a surrogate pair
that does not come together with the other half.
-/

namespace BytecodeDebugger.Json

/-- A token of a document. -/
inductive Token where
  /-- The bracket that opens an array. -/
  | openArray
  /-- The bracket that closes an array. -/
  | closeArray
  /-- The brace that opens an object. -/
  | openObject
  /-- The brace that closes an object. -/
  | closeObject
  /-- The comma between items. -/
  | comma
  /-- The colon between the name of a member and its value. -/
  | colon
  /-- A value other than an array, an object or a text. -/
  | scalar (value : Json)
  /-- A text. -/
  | text (s : String)

namespace Token

/-- Where a character falls: between tokens or inside one.  Characters already read come last
first. -/
inductive Place where
  /-- Between tokens. -/
  | between
  /-- In a word. -/
  | inWord (read : List Char)
  /-- In a number. -/
  | inNumber (read : List Char)
  /-- In a text. -/
  | inText (read : List Char)
  /-- Behind a backslash. -/
  | escaped (read : List Char)
  /-- In the four digits of an escape, of which `left` are still to come, behind the first half of
  a surrogate pair or not. -/
  | inUnit (read : List Char) (firstHalf : Option Nat) (value left : Nat)
  /-- Behind the first half of a surrogate pair. -/
  | betweenHalves (read : List Char) (firstHalf : Nat)
  /-- Behind the backslash that must start the second half of a surrogate pair. -/
  | atSecondHalf (read : List Char) (firstHalf : Nat)

/-- Whether a character separates tokens. -/
def isSpace (c : Char) : Bool :=
  c == ' ' || c == '\n' || c == '\t' || c == '\r'

/-- Whether a character may stand in a number. -/
def isNumberChar (c : Char) : Bool :=
  c.isDigit || c == '-' || c == '+' || c == '.' || c == 'e' || c == 'E'

/-- The token that a word is. -/
def ofWord? (read : List Char) : Option Token :=
  match String.ofList read.reverse with
  | "null" => some (scalar null)
  | "true" => some (scalar (bool true))
  | "false" => some (scalar (bool false))
  | _ => none

/-- The token that a number is. -/
def ofNumber? (read : List Char) : Option Token :=
  (readNumber? read.reverse).map scalar

/-- The character that a short escape stands for. -/
def ofEscape? : Char → Option Char
  | '"' => some '"'
  | '\\' => some '\\'
  | '/' => some '/'
  | 'b' => some '\x08'
  | 'f' => some '\x0c'
  | 'n' => some '\n'
  | 'r' => some '\r'
  | 't' => some '\t'
  | _ => none

/-- The state after a complete escape of four digits. -/
def endUnit? (read : List Char) (firstHalf : Option Nat) (value : Nat) : Option Place :=
  match firstHalf with
  | none =>
    -- A first half waits for the second one, which cannot stand alone.
    if 0xd800 ≤ value ∧ value ≤ 0xdbff then some (.betweenHalves read value)
    else if 0xdc00 ≤ value ∧ value ≤ 0xdfff then none
    else some (.inText (Char.ofNat value :: read))
  | some high =>
    if 0xdc00 ≤ value ∧ value ≤ 0xdfff then
      some (.inText (Char.ofNat (0x10000 + (high - 0xd800) * 0x400 + (value - 0xdc00)) :: read))
    else none

/-- What a character does between two tokens: the token that it is, if it is one, and the place
behind it. -/
def start? (c : Char) : Option (List Token × Place) :=
  if isSpace c then some ([], .between)
  else if c.isDigit ∨ c = '-' then some ([], .inNumber [c])
  else if c.isAlpha then some ([], .inWord [c])
  else match c with
    | '[' => some ([openArray], .between)
    | ']' => some ([closeArray], .between)
    | '\x7b' => some ([openObject], .between)
    | '\x7d' => some ([closeObject], .between)
    | ',' => some ([comma], .between)
    | ':' => some ([colon], .between)
    | '"' => some ([], .inText [])
    | _ => none

/-- What a character does at a place: the tokens that it completes, and the place behind it. -/
def step? (c : Char) : Place → Option (List Token × Place)
  | .between => start? c
  | .inWord read =>
    -- A character that cannot belong to the token ends it and is looked at once more.
    if c.isAlpha then some ([], .inWord (c :: read))
    else do
      let token ← ofWord? read
      let (tokens, place) ← start? c
      return (token :: tokens, place)
  | .inNumber read =>
    if isNumberChar c then some ([], .inNumber (c :: read))
    else do
      let token ← ofNumber? read
      let (tokens, place) ← start? c
      return (token :: tokens, place)
  | .inText read =>
    if c = '"' then some ([text (String.ofList read.reverse)], .between)
    else if c = '\\' then some ([], .escaped read)
    else if c.toNat < 0x20 then none
    else some ([], .inText (c :: read))
  | .escaped read =>
    if c = 'u' then some ([], .inUnit read none 0 4)
    else (ofEscape? c).map fun meant => ([], .inText (meant :: read))
  | .inUnit read firstHalf value left => do
    let digit ← Text.Base.hexadecimal.digit? c
    if left ≤ 1 then
      let place ← endUnit? read firstHalf (value * 16 + digit)
      return ([], place)
    else return ([], .inUnit read firstHalf (value * 16 + digit) (left - 1))
  | .betweenHalves read high => if c = '\\' then some ([], .atSecondHalf read high) else none
  | .atSecondHalf read high => if c = 'u' then some ([], .inUnit read (some high) 0 4) else none

/-- The token that the end of the document completes, if any. -/
def finish? : Place → Option (List Token)
  | .between => some []
  | .inWord read => (ofWord? read).map ([·])
  | .inNumber read => (ofNumber? read).map ([·])
  | _ => none

/-- Reads on from a place, behind the tokens already completed, which come last first. -/
def scanFrom? (completed : List Token) (place : Place) : List Char → Option (List Token)
  | [] => (finish? place).map fun tokens => completed.reverse ++ tokens
  | c :: cs =>
    match step? c place with
    | some (tokens, place) => scanFrom? (tokens.reverse ++ completed) place cs
    | none => none

/-- The tokens of a document. -/
def scan? (document : String) : Option (List Token) :=
  scanFrom? [] .between document.toList

end Token

end BytecodeDebugger.Json
