import BytecodeDebugger.Json.Token

/-!
# JSON documents

The grammar of a document, over its tokens.  The containers that are open stand on a stack, and the
state says what may come next; commas must have an item on both sides.  Containers are nested at
most `depthLimit` deep.
-/

namespace BytecodeDebugger.Json

/-- A container that is still open.  Items already read come last first. -/
inductive Open where
  | array (items : List Json)
  /-- An object, with the name of the member whose value comes next. -/
  | object (members : List (String × Json)) (name : String)

/-- What may come next. -/
inductive Expected where
  | value
  /-- A value, or the end of the array just opened. -/
  | valueOrEnd
  /-- The name of a member. -/
  | name (members : List (String × Json))
  /-- The name of a member, or the end of the object just opened. -/
  | nameOrEnd
  /-- A colon, behind the name of a member. -/
  | colon (members : List (String × Json)) (name : String)
  /-- A comma, or the end of the innermost container, behind its latest item. -/
  | commaOrEnd (latest : Json)

/-- The greatest number of containers around each other. -/
def depthLimit : Nat := 127

/-- The state of reading a document: the open containers, the innermost first, and what may come
next. -/
structure Reading where
  /-- The open containers. -/
  containers : List Open := []
  /-- What may come next. -/
  expected : Expected := .value

namespace Reading

/-- The start of an array, where a value may come. -/
def enterArray? (containers : List Open) : Option Reading :=
  if containers.length < depthLimit then
    some { containers := .array [] :: containers, expected := .valueOrEnd }
  else none

/-- The start of an object, where a value may come. -/
def enterObject? (containers : List Open) : Option Reading :=
  if containers.length < depthLimit then some { containers, expected := .nameOrEnd } else none

/-- Takes a token where a value must stand. -/
def value? (containers : List Open) : Token → Option Reading
  | .scalar value => some { containers, expected := .commaOrEnd value }
  | .text s => some { containers, expected := .commaOrEnd (.text s) }
  | .openArray => enterArray? containers
  | .openObject => enterObject? containers
  | _ => none

/-- Takes a token behind an item of the innermost container. -/
def afterItem? (containers : List Open) (latest : Json) (token : Token) : Option Reading :=
  match containers, token with
  | .array items :: outer, .comma =>
    some { containers := .array (latest :: items) :: outer, expected := .value }
  | .array items :: outer, .closeArray =>
    some { containers := outer, expected := .commaOrEnd (.array (latest :: items).reverse) }
  | .object members name :: outer, .comma =>
    some { containers := outer, expected := .name ((name, latest) :: members) }
  | .object members name :: outer, .closeObject =>
    some { containers := outer
           expected := .commaOrEnd (.object ((name, latest) :: members).reverse) }
  | _, _ => none

/-- Takes a token. -/
def step? (r : Reading) (token : Token) : Option Reading :=
  match r.expected with
  | .value => value? r.containers token
  | .valueOrEnd =>
    -- An array ends here only without items: behind a comma a value must come.
    match r.containers, token with
    | .array [] :: outer, .closeArray =>
      some { containers := outer, expected := .commaOrEnd (.array []) }
    | _, _ => value? r.containers token
  | .name members =>
    match token with
    | .text name => some { r with expected := .colon members name }
    | _ => none
  | .nameOrEnd =>
    match token with
    | .text name => some { r with expected := .colon [] name }
    | .closeObject => some { r with expected := .commaOrEnd (.object []) }
    | _ => none
  | .colon members name =>
    match token with
    | .colon => some { containers := .object members name :: r.containers, expected := .value }
    | _ => none
  | .commaOrEnd latest => afterItem? r.containers latest token

/-- The value read, if it is complete. -/
def result? (r : Reading) : Option Json :=
  match r.containers, r.expected with
  | [], .commaOrEnd value => some value
  | _, _ => none

end Reading

/-- The value that a list of tokens writes. -/
def ofTokens? (tokens : List Token) : Option Json :=
  (tokens.foldlM Reading.step? {}).bind Reading.result?

/-- Reads a document. -/
def read? (document : String) : Option Json :=
  (Token.scan? document).bind ofTokens?

end BytecodeDebugger.Json
