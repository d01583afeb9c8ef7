import BytecodeDebugger.Text.Numeral

/-!
# Arguments

The command line as a list of arguments, and what it asks for.

An option has a long name and maybe a letter, and it always has a value: behind an equals sign
(`--code=00`, `-b=3`), directly behind the letter (`-b3`), or as the next argument, which must then
not look like an option; a single hyphen does not.  Breakpoints and commands may be given many
times, everything else once.  Nothing may stand behind `--`.

How the refusal of a command line is worded is not decided here.  There is no help either: `--help`,
`-h` and `help` are not understood, and the program ends with exit code 2, where a parser of
arguments that comes with its own help prints it and ends with 0.
-/

namespace BytecodeDebugger.CommandLine

/-- An option. -/
inductive OptionName where
  | code
  | codeFile
  | lineMap
  | source
  | breakpoint
  | command
  | callData
  | address
deriving DecidableEq, Repr

namespace OptionName

/-- The option of that long name. -/
def ofLong? : String → Option OptionName
  | "code" => some code
  | "code-file" => some codeFile
  | "source-map" => some lineMap
  | "source" => some source
  | "break" => some breakpoint
  | "exec" => some command
  | "calldata" => some callData
  | "code-address" => some address
  | _ => none

/-- The option of that letter. -/
def ofLetter? : Char → Option OptionName
  | 'm' => some lineMap
  | 's' => some source
  | 'b' => some breakpoint
  | 'x' => some command
  | _ => none

/-- Whether the option may be given many times. -/
def isRepeatable : OptionName → Bool
  | breakpoint | command => true
  | _ => false

/-- Whether the value of the option is the name of a file. -/
def isPath : OptionName → Bool
  | codeFile | lineMap | source => true
  | _ => false

/-- Whether the option only concerns a run. -/
def isForRun : OptionName → Bool
  | code | codeFile | lineMap => false
  | _ => true

end OptionName

/-- Options and their values, in the order in which they are given. -/
abbrev Settings := List (OptionName × String)

/-- An argument, taken by itself. -/
inductive Argument where
  /-- The mark behind which there are no options. -/
  | endMark
  | setting (name : OptionName) (value : String)
  /-- An option whose value is the next argument. -/
  | name (name : OptionName)
  /-- Something that looks like an option and is none. -/
  | unknown
  | plain (text : String)
deriving DecidableEq, Repr

namespace Argument

/-- The text before the first equals sign, and the text behind it if there is one. -/
def splitEquals : List Char → List Char × Option (List Char)
  | [] => ([], none)
  | c :: cs =>
    if c = '=' then ([], some cs)
    else
      let (before, after) := splitEquals cs
      (c :: before, after)

/-- An argument with two hyphens in front. -/
def ofLong (cs : List Char) : Argument :=
  match splitEquals cs with
  | (long, value) =>
    match OptionName.ofLong? (String.ofList long), value with
    | some option, some value => setting option (String.ofList value)
    | some option, none => name option
    | none, _ => unknown

/-- An argument with one hyphen in front, in parts: the letter and what follows it. -/
def ofLetter (letter : Char) (cs : List Char) : Argument :=
  match OptionName.ofLetter? letter, cs with
  | none, _ => unknown
  | some option, [] => name option
  | some option, '=' :: value => setting option (String.ofList value)
  | some option, value => setting option (String.ofList value)

/-- What an argument is. -/
def ofString (s : String) : Argument :=
  match s.toList with
  | ['-', '-'] => endMark
  | '-' :: '-' :: cs => ofLong cs
  | '-' :: c :: cs => ofLetter c cs
  | _ => plain s

end Argument

/-- Adds an option to those before it, unless it is there and may be given only once. -/
def addSetting (settings : Settings) (name : OptionName) (value : String) : Option Settings :=
  if !name.isRepeatable && settings.any (·.1 == name) then none
  else some (settings ++ [(name, value)])

/-- The options that the arguments give, behind those before them.  The option that waits for its
value, if any, is `waiting`. -/
def readSettings (settings : Settings) (waiting : Option OptionName) :
    List String → Option Settings
  | [] => if waiting.isSome then none else some settings
  | argument :: arguments =>
    match waiting, Argument.ofString argument with
    | some name, .plain value => do
      readSettings (← addSetting settings name value) none arguments
    -- The value must not look like an option.
    | some _, _ => none
    | none, .setting name value => do
      readSettings (← addSetting settings name value) none arguments
    | none, .name name => readSettings settings (some name) arguments
    | none, .endMark => if arguments.isEmpty then some settings else none
    | none, .unknown => none
    | none, .plain _ => none

/-- The values of an option, in order. -/
def values (settings : Settings) (name : OptionName) : List String :=
  (settings.filter (·.1 == name)).map (·.2)

/-- The value of an option that is given at most once. -/
def value? (settings : Settings) (name : OptionName) : Option String :=
  (values settings name).head?

/-- The number of a line as an argument: in decimal, with an optional sign that does not make it
negative. -/
def lineNumber? (s : String) : Option Nat :=
  match s.toList with
  -- Behind a hyphen only zeros are in range.
  | '-' :: c :: cs => (Text.readDigits .decimal 0 0 (c :: cs)).toOption
  | cs => (Text.readNumeral .decimal maxLine cs).toOption

/-- Where the program comes from. -/
inductive CodeArgument where
  | text (hex : String)
  | file (path : String)
deriving DecidableEq, Repr

/-- The file that the program is in, if it is in one. -/
def CodeArgument.path? : CodeArgument → Option String
  | text _ => none
  | file path => some path

/-- What to debug. -/
structure RunArguments where
  code : CodeArgument
  lineMap : Option String := none
  source : Option String := none
  breakpoints : List Nat := []
  /-- The commands to carry out; without any, they are typed in. -/
  commands : List String := []
  callData : Option String := none
  address : Option String := none
deriving DecidableEq, Repr

/-- What to list. -/
structure ListArguments where
  code : CodeArgument
  lineMap : Option String := none
deriving DecidableEq, Repr

/-- What the command line asks for. -/
inductive Invocation where
  | version
  | run (arguments : RunArguments)
  | list (arguments : ListArguments)
deriving DecidableEq, Repr

namespace Invocation

/-- The program to be used, which is given in exactly one way. -/
def code? (settings : Settings) : Option CodeArgument :=
  match value? settings .code, value? settings .codeFile with
  | some hex, none => some (.text hex)
  | none, some path => some (.file path)
  | _, _ => none

/-- The options among the arguments.  The name of a file may not be empty. -/
def settings? (arguments : List String) : Option Settings := do
  let settings ← readSettings [] none arguments
  guard (settings.all fun entry => !(entry.1.isPath && entry.2.isEmpty))
  return settings

/-- A run as the arguments behind its name ask for it. -/
def run? (arguments : List String) : Option Invocation := do
  let settings ← settings? arguments
  return .run {
    code := ← code? settings
    lineMap := value? settings .lineMap
    source := value? settings .source
    breakpoints := ← (values settings .breakpoint).mapM lineNumber?
    commands := values settings .command
    callData := value? settings .callData
    address := value? settings .address }

/-- A listing as the arguments behind its name ask for it. -/
def list? (arguments : List String) : Option Invocation := do
  let settings ← settings? arguments
  guard (settings.all fun entry => !entry.1.isForRun)
  return .list { code := ← code? settings, lineMap := value? settings .lineMap }

/-- Whether an argument asks for the version, at once and whatever follows it. -/
def asksForVersion (argument : String) : Bool :=
  match argument.toList with
  | '-' :: 'V' :: _ => true
  | _ => argument == "--version"

/-- What a command line asks for, if it can be understood. -/
def ofArguments? : List String → Option Invocation
  | [] => none
  | "run" :: arguments => run? arguments
  | "disasm" :: arguments => list? arguments
  | argument :: _ => if asksForVersion argument then some .version else none

/-- The files that are to be read, in the order in which they are. -/
def paths : Invocation → List String
  | version => []
  | run arguments => [arguments.code.path?, arguments.lineMap, arguments.source].filterMap id
  | list arguments => [arguments.code.path?, arguments.lineMap].filterMap id

end Invocation

end BytecodeDebugger.CommandLine
