import BytecodeDebugger.Json.Document
import BytecodeDebugger.Source.LineMap

/-!
# Line map files

A compiler writes the line map as a JSON document: an object whose member `pc_pos_map` lists, under
each position, numbers that start with the line, and whose member `breakpoints` lists lines.  The
object may also stand under the name `line_number_map`, once, or be written as an array of its one
or two members in that order.

The shape of the whole document is checked before any position is read.  Positions are then taken
in the order of the text that writes them, and where two texts write the same position the later
one wins.
-/

namespace BytecodeDebugger

/-- Why a document is no line map. -/
inductive LineMapError where
  /-- The document is no JSON, or has another shape. -/
  | badDocument
  /-- The name of a member is no position. -/
  | invalidPosition (key : String)
  /-- There is no line under a position. -/
  | emptyEntry (position : Nat)
deriving DecidableEq, Repr

def LineMapError.message : LineMapError → String
  | badDocument => "Failed to parse line number map"
  | invalidPosition key => "Invalid pc '" ++ key ++ "' in pc_pos_map"
  | emptyEntry position => "Empty source position for pc " ++ toString position

/-- A line map document: the numbers listed under each text that writes a position, in the order of
the texts, each text once, and the lines listed as breakpoints. -/
structure LineMapDocument where
  /-- The numbers under each text. -/
  entries : List (String × List Nat)
  breakpoints : List Nat
deriving DecidableEq, Repr

namespace LineMapDocument

/-- A number of at most 32 bits. -/
def number? : Json → Option Nat
  | .natural n => if n ≤ maxLine then some n else none
  | _ => none

/-- A list of numbers. -/
def numbers? : Json → Option (List Nat)
  | .array items => items.mapM number?
  | _ => none

/-- The members of an object, in the order of their names; of members of one name the last
counts. -/
def sortedMembers (members : List (String × Json)) : List (String × Json) :=
  (members.foldl (fun map m => map.insert m.1 m.2) (∅ : Std.TreeMap String Json)).toList

/-- The lists under the positions. -/
def entries? : Json → Option (List (String × List Nat))
  | .object members =>
    (sortedMembers members).mapM fun m => (numbers? m.2).map fun numbers => (m.1, numbers)
  | _ => none

/-- The value under the name `line_number_map`, if the document is an object with such a member, and
the document itself otherwise. -/
def unwrap : Json → Json
  | .object members => (Json.member? "line_number_map" members).getD (.object members)
  | value => value

/-- A line map document from its two members. -/
def ofMembers? (entries : Json) (breakpoints : Option Json) : Option LineMapDocument := do
  return {
    entries := ← entries? entries
    breakpoints := ← (breakpoints.map numbers?).getD (some []) }

/-- A line map document from an unwrapped value. -/
def ofJson? : Json → Option LineMapDocument
  | .object members => do
    ofMembers? (← Json.member? "pc_pos_map" members) (Json.member? "breakpoints" members)
  | .array [entries] => ofMembers? entries none
  | .array [entries, breakpoints] => ofMembers? entries (some breakpoints)
  | _ => none

/-- The position and the line of an entry. -/
def position (entry : String × List Nat) : Except LineMapError (Nat × Nat) :=
  match Text.readNumber entry.1, entry.2 with
  -- A bad position is reported even if there is no line under it.
  | .error _, _ => .error (.invalidPosition entry.1)
  | .ok position, [] => .error (.emptyEntry position)
  | .ok position, line :: _ => .ok (position, line)

/-- The line map of a document. -/
def lineMap (d : LineMapDocument) : Except LineMapError LineMap := do
  return LineMap.ofLists (← d.entries.mapM position) d.breakpoints

end LineMapDocument

namespace LineMap

/-- Reads a line map file, given a reader of documents: the value that a text writes, if any. -/
def ofFileBy (read? : String → Option Json) (text : String) : Except LineMapError LineMap :=
  match (read? text).bind (LineMapDocument.ofJson? ∘ LineMapDocument.unwrap) with
  | some document => document.lineMap
  | none => .error .badDocument

/-- Reads a line map file. -/
def ofFile : String → Except LineMapError LineMap :=
  ofFileBy Json.read?

end LineMap

end BytecodeDebugger
