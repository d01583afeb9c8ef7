import BytecodeDebugger.CommandLine.Inputs

/-!
# The directory that the program is started in

What the paths that a command line names read as, for a program that is started in a directory
whose files are all known.  A path is a list of steps (`stepsOf`), which are taken one after the
other: an empty step or a single dot stays where it is, two dots lead back, any other step leads to
what has that name.  All but the last step must lead to a folder, which a file is not, so a slash
behind the name of a file is an error; and only a file can be read.

What is outside the directory is not known, except for two devices: the one that is empty, and the
one that reads what is typed in (`Directory.root`).
-/

namespace BytecodeDebugger.CommandLine

/-- A place in a directory: the names that lead to it. -/
abbrev Place := List String

/-- The steps of a path, which are cut apart by slashes. -/
def stepsOf (path : String) : List String :=
  (go path.toList).map String.ofList
where
  /-- The steps of a list of characters; there is always one. -/
  go : List Char → List (List Char)
    | [] => [[]]
    | c :: cs =>
      match c, go cs with
      | '/', steps => [] :: steps
      | c, step :: steps => (c :: step) :: steps
      | c, [] => [[c]]

/-- Whether a step stays where it is. -/
def isIdleStep (step : String) : Bool :=
  step = "" || step = "."

/-- What a file holds. -/
inductive Content where
  | text (text : String)
  /-- What is typed in, until somebody has read it. -/
  | typed
deriving DecidableEq, Repr

/-- What a file reads as while a given text is still to be typed in. -/
def Content.read (typed : String) : Content → String
  | text known => known
  | .typed => typed

/-- A directory with its files, by place. -/
structure Directory where
  files : List (Place × Content) := []

namespace Directory

/-- The directory with files of these paths and texts. -/
def ofTexts (texts : List (String × String)) : Directory :=
  { files := texts.map fun (path, text) =>
      ((stepsOf path).filter (!isIdleStep ·), .text text) }

/-- The directory that all others are in, with the devices in it. -/
def root : Directory :=
  { files := [(["dev", "null"], .text ""), (["dev", "stdin"], .typed),
      (["dev", "fd", "0"], .typed), (["proc", "self", "fd", "0"], .typed)] }

/-- Whether a place is that of the directory or of a folder in it. -/
def isFolder (d : Directory) (place : Place) : Bool :=
  place.isEmpty || d.files.any fun file =>
    place.isPrefixOf file.1 && place.length < file.1.length

/-- The place that some steps lead to, if it is one inside the directory. -/
def walk? (d : Directory) (place : Place) : List String → Option Place
  | [] => some place
  | step :: steps =>
    if !d.isFolder place then none
    else if isIdleStep step then d.walk? place steps
    else if step = ".." then
      -- What the directory is in is not known.
      if place.isEmpty then none else d.walk? place.dropLast steps
    else d.walk? (place ++ [step]) steps

/-- What the file holds that some steps lead to. -/
def contentAt? (d : Directory) (steps : List String) : Option Content := do
  d.files.lookup (← d.walk? [] steps)

/-- What the file with a path holds.  A path with a slash in front begins at the root. -/
def content? (d : Directory) (path : String) : Option Content :=
  match stepsOf path with
  | "" :: step :: steps => root.contentAt? (step :: steps)
  | steps => d.contentAt? steps

/-- Reads the files with the given paths while a text is still to be typed in: what can be read of
them, and the text that is still to be typed in afterwards. -/
def read (d : Directory) (typed : String) (paths : List String) : Files × String :=
  let found := paths.filterMap fun path => (d.content? path).map (path, ·)
  (found.map fun (path, content) => (path, content.read typed),
    if found.any (·.2 = .typed) then "" else typed)

end Directory

end BytecodeDebugger.CommandLine
