/-!
# JSON values

A JSON document as a tree.  Of its numbers only the natural ones are kept as values; a number that
is written with a sign, a fraction or an exponent is `other`, even where it is a whole number.
-/

namespace BytecodeDebugger

/-- A JSON value. -/
inductive Json where
  | null
  | bool (b : Bool)
  /-- A number written as a plain row of digits. -/
  | natural (n : Nat)
  | other
  | text (s : String)
  | array (items : List Json)
  /-- The members of an object, in the order in which they are written. -/
  | object (members : List (String × Json))
deriving Inhabited

/-- The value of the last member of that name. -/
def Json.member? (name : String) (members : List (String × Json)) : Option Json :=
  (members.reverse.find? fun m => m.1 == name).map (·.2)

end BytecodeDebugger
