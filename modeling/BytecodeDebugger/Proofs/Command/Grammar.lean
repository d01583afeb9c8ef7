import BytecodeDebugger.Command
import BytecodeDebugger.Proofs.Text.Numeral
import Mathlib.Data.List.Forall2

/-!
# The grammar of commands

What is written to give a command: one of its names (`Command.names`) and then what it needs to
know (`Command.Arguments`), where some numbers may be left out.  A text is accepted as a command
exactly if its words are that (`Command.ofWords_eq_ok_iff`), so it comes to its words only, and any
name will do.  `Command.parse_grammar` says so, and that every command is read back from all the
ways to write it out.
-/

namespace BytecodeDebugger.Command

/-! ### What is written -/

/-- The names of a command, of which the first is the long one. -/
def names : Command → List String
  | .continue => ["continue", "c"]
  | .step => ["step", "s", "next", "n"]
  | .stack => ["stack", "st"]
  | .memory _ _ => ["memory", "mem"]
  | .pc => ["pc"]
  | .line => ["line", "l"]
  | .list _ => ["list", "ls"]
  | .setBreakpoint _ => ["break", "b"]
  | .deleteBreakpoint _ => ["delete", "d"]
  | .breakpoints => ["breakpoints", "info", "i"]
  | .help => ["help", "h", "?"]

/-- A word is a number below a bound. -/
def IsNumber (bound : Nat) (word : String) (n : Nat) : Prop :=
  Text.readNumber word = .ok n ∧ n < bound

/-- A number below a bound is in its place, or there is nothing and it is the usual one. -/
def IsNumberOr (default bound : Nat) : Option String → Nat → Prop
  | some word, n => IsNumber bound word n
  | none, n => n = default

/-- The words behind the name of a command.  A length of memory is up to 16 MiB. -/
def Arguments : Command → List String → Prop
  | .memory offset length, words => words.length ≤ 2 ∧
      IsNumberOr 0 (2 ^ 64) words[0]? offset ∧ IsNumberOr 64 (2 ^ 64) words[1]? length ∧
      length ≤ 2 ^ 24
  | .list radius, words => words.length ≤ 1 ∧ IsNumberOr 3 (2 ^ 32) words[0]? radius
  | .setBreakpoint n, words | .deleteBreakpoint n, words =>
      ∃ word, words = [word] ∧ IsNumber (2 ^ 32) word n
  | _, words => words = []

/-- Words that give a command. -/
def Gives (words : List String) (command : Command) : Prop :=
  ∃ name arguments, words = name :: arguments ∧ name ∈ command.names ∧ command.Arguments arguments

/-- The numbers that a command comes with. -/
def numbers : Command → List Nat
  | .memory offset length => [offset, length]
  | .list n | .setBreakpoint n | .deleteBreakpoint n => [n]
  | _ => []

/-- A command whose numbers are in range. -/
def InRange : Command → Prop
  | .memory offset length => offset < 2 ^ 64 ∧ length ≤ 2 ^ 24
  | .list n | .setBreakpoint n | .deleteBreakpoint n => n < 2 ^ 32
  | _ => True

/-- The kind of a command. -/
def kind : Command → Kind
  | .memory _ _ => .memory
  | .list _ => .list
  | .setBreakpoint _ => .setBreakpoint
  | .deleteBreakpoint _ => .deleteBreakpoint
  | command => .plain command

/-! ### Names -/

/-- A name stands for the kind of the commands that have it. -/
theorem ofName?_eq_some_iff {name : String} {command : Command} :
    Kind.ofName? name = some command.kind ↔ name ∈ command.names := by
  constructor
  · intro h
    unfold Kind.ofName? at h
    split at h <;> cases command <;> simp [kind] at h <;> simp [names]
  · intro h
    cases command <;> simp only [names, List.mem_cons, List.not_mem_nil, or_false] at h <;>
      rcases h with rfl | rfl | rfl | rfl <;> rfl

/-- A name that stands for a command without arguments does not stand for another kind of it. -/
theorem kind_of_ofName?_plain {name : String} {command : Command}
    (h : Kind.ofName? name = some (.plain command)) : command.kind = .plain command := by
  unfold Kind.ofName? at h
  split at h <;> cases h <;> rfl

/-! ### Arguments -/

theorem readArgument_eq_ok_iff {word : String} {n : Nat} :
    readArgument word = .ok n ↔ IsNumber (2 ^ 64) word n := by
  rw [readArgument, Except.mapError_eq_ok_iff, IsNumber]
  exact ⟨fun h => ⟨h, Text.lt_of_readNumber h⟩, And.left⟩

theorem readLine_eq_ok_iff {word : String} {n : Nat} :
    readLine word = .ok n ↔ IsNumber (2 ^ 32) word n := by
  have hline (m : Nat) : m ≤ maxLine ↔ m < 2 ^ 32 := Nat.lt_succ_iff.symm
  rw [readLine, Except.bind_eq_ok_iff, IsNumber]
  constructor
  · rintro ⟨m, hm, h⟩
    split_ifs at h with hle
    obtain rfl := Except.ok.inj h
    exact ⟨(readArgument_eq_ok_iff.mp hm).1, (hline m).mp hle⟩
  · rintro ⟨h, hlt⟩
    refine ⟨n, readArgument_eq_ok_iff.mpr ⟨h, Text.lt_of_readNumber h⟩, ?_⟩
    rw [if_pos ((hline n).mpr hlt)]
    rfl

theorem readOptional_eq_ok_iff {read : String → Except CommandError Nat} {default bound : Nat}
    {word? : Option String} {n : Nat}
    (hread : ∀ word n, read word = .ok n ↔ IsNumber bound word n) :
    readOptional read default word? = .ok n ↔ IsNumberOr default bound word? n := by
  cases word? with
  | none => rw [readOptional, IsNumberOr, Except.ok.injEq, eq_comm]
  | some word => exact hread word n

theorem checkLength_eq_ok_iff {length n : Nat} :
    checkLength length = .ok n ↔ n = length ∧ length ≤ 2 ^ 24 := by
  rw [checkLength]
  split_ifs with h
  · rw [Except.ok.injEq, eq_comm]
    exact ⟨fun hn => ⟨hn, h⟩, And.left⟩
  · exact ⟨nofun, fun hn => absurd hn.2 h⟩

/-- A command with one number, which is read from the words behind the name. -/
theorem map_read_eq_ok_iff {make : Nat → Command} (hmake : Function.Injective make)
    {number : Except CommandError Nat} {n : Nat} :
    (do return make (← number)) = .ok (make n) ↔ number = .ok n := by
  rw [Except.bind_eq_ok_iff]
  constructor
  · rintro ⟨m, hm, h⟩
    rwa [← hmake (Except.ok.inj h)]
  · intro h
    exact ⟨n, h, rfl⟩

theorem readRequiredLine_eq_ok_iff {name : String} {words : List String} {n : Nat} :
    readRequiredLine name words = .ok n ∧ words.length ≤ 1 ↔
      ∃ word, words = [word] ∧ IsNumber (2 ^ 32) word n := by
  cases words with
  | nil => simp [readRequiredLine]
  | cons word words =>
    rw [readRequiredLine, readLine_eq_ok_iff]
    constructor
    · rintro ⟨h, hlength⟩
      obtain rfl : words = [] := List.eq_nil_of_length_eq_zero (by simpa using hlength)
      exact ⟨word, rfl, h⟩
    · rintro ⟨word', hwords, h⟩
      obtain ⟨rfl, rfl⟩ := List.cons.inj hwords
      exact ⟨h, le_rfl⟩

/-- **The arguments of a command** are read as what it comes with, and are not too many. -/
theorem readArguments_eq_ok_iff {name : String} {words : List String} {command : Command} :
    readArguments name words command.kind = .ok command ∧
      words.length ≤ command.kind.maxArguments ↔ command.Arguments words := by
  have hplain : words.length ≤ 0 ↔ words = [] := by simp
  cases command with
  | memory offset length =>
    have hread : readArguments name words .memory = .ok (.memory offset length) ↔
        IsNumberOr 0 (2 ^ 64) words[0]? offset ∧ IsNumberOr 64 (2 ^ 64) words[1]? length ∧
          length ≤ 2 ^ 24 := by
      have hnumber (default : Nat) (word? : Option String) (n : Nat) :
          readOptional readArgument default word? = .ok n ↔ IsNumberOr default (2 ^ 64) word? n :=
        readOptional_eq_ok_iff fun _ _ => readArgument_eq_ok_iff
      simp only [readArguments, Except.bind_eq_ok_iff, hnumber, checkLength_eq_ok_iff]
      constructor
      · rintro ⟨offset', hoffset, length', hlength, _, ⟨rfl, hle⟩, h⟩
        obtain ⟨rfl, rfl⟩ := Command.memory.inj (Except.ok.inj h)
        exact ⟨hoffset, hlength, hle⟩
      · rintro ⟨hoffset, hlength, hle⟩
        exact ⟨offset, hoffset, length, hlength, length, ⟨rfl, hle⟩, rfl⟩
    exact (and_congr_left fun _ => hread).trans and_comm
  | list radius =>
    rw [kind, readArguments, map_read_eq_ok_iff fun _ _ => Command.list.inj,
      readOptional_eq_ok_iff fun _ _ => readLine_eq_ok_iff]
    exact and_comm
  | setBreakpoint n =>
    rw [kind, readArguments, map_read_eq_ok_iff fun _ _ => Command.setBreakpoint.inj]
    exact readRequiredLine_eq_ok_iff
  | deleteBreakpoint n =>
    rw [kind, readArguments, map_read_eq_ok_iff fun _ _ => Command.deleteBreakpoint.inj]
    exact readRequiredLine_eq_ok_iff
  | _ => exact ⟨fun h => hplain.mp h.2, fun h => ⟨rfl, hplain.mpr h⟩⟩

/-- The command that is read from the arguments is of the kind that was asked for. -/
theorem kind_of_readArguments {name : String} {words : List String} {asked : Kind}
    {command : Command} (hname : Kind.ofName? name = some asked)
    (h : readArguments name words asked = .ok command) : command.kind = asked := by
  cases asked with
  | plain command' =>
    obtain rfl := Except.ok.inj h
    exact kind_of_ofName?_plain hname
  | memory =>
    obtain ⟨offset, -, h⟩ := Except.bind_eq_ok_iff.mp h
    obtain ⟨length, -, h⟩ := Except.bind_eq_ok_iff.mp h
    obtain ⟨length', -, h⟩ := Except.bind_eq_ok_iff.mp h
    obtain rfl := Except.ok.inj h
    rfl
  | list | setBreakpoint | deleteBreakpoint =>
    obtain ⟨n, -, h⟩ := Except.bind_eq_ok_iff.mp h
    obtain rfl := Except.ok.inj h
    rfl

/-! ### Commands -/

theorem ofWords_cons_eq_ok_iff {name : String} {words : List String} {command : Command} :
    ofWords (name :: words) = .ok command ↔ ∃ asked, Kind.ofName? name = some asked ∧
      readArguments name words asked = .ok command ∧ words.length ≤ asked.maxArguments := by
  rw [ofWords]
  cases hname : Kind.ofName? name with
  | none => simp
  | some asked =>
    simp only [Option.some.injEq, exists_eq_left', Except.bind_eq_ok_iff]
    constructor
    · rintro ⟨command', hread, h⟩
      split_ifs at h with hlength
      obtain rfl := Except.ok.inj h
      exact ⟨hread, hlength⟩
    · rintro ⟨hread, hlength⟩
      exact ⟨command, hread, by rw [if_pos hlength]; rfl⟩

/-- **Words are accepted if they give a command**, and as that command. -/
theorem ofWords_eq_ok_iff {words : List String} {command : Command} :
    ofWords words = .ok command ↔ Gives words command := by
  cases words with
  | nil => simp [ofWords, Gives]
  | cons name words =>
    rw [ofWords_cons_eq_ok_iff]
    constructor
    · rintro ⟨asked, hname, hread, hlength⟩
      obtain rfl := kind_of_readArguments hname hread
      exact ⟨name, words, rfl, ofName?_eq_some_iff.mp hname,
        readArguments_eq_ok_iff.mp ⟨hread, hlength⟩⟩
    · rintro ⟨name', words', hwords, hname, harguments⟩
      obtain ⟨rfl, rfl⟩ := List.cons.inj hwords
      exact ⟨command.kind, ofName?_eq_some_iff.mpr hname, readArguments_eq_ok_iff.mpr harguments⟩

theorem parse_of_splits {text : String} {words : List String} (h : Text.Splits text words) :
    parse text = ofWords words := by
  rw [parse, Text.words_eq_iff.mpr h]

theorem parse_eq_ok_iff {text : String} {command : Command} :
    parse text = .ok command ↔ ∃ words, Text.Splits text words ∧ Gives words command := by
  rw [parse, ofWords_eq_ok_iff]
  constructor
  · intro h
    exact ⟨Text.words text, Text.words_eq_iff.mp rfl, h⟩
  · rintro ⟨words, hwords, h⟩
    rwa [Text.words_eq_iff.mpr hwords]

/-- Names of one command are names of the same commands. -/
theorem gives_congr {name name' : String} {command : Command} (hname : name ∈ command.names)
    (hname' : name' ∈ command.names) {words : List String} {given : Command} :
    Gives (name :: words) given ↔ Gives (name' :: words) given := by
  have hkind : Kind.ofName? name = Kind.ofName? name' :=
    (ofName?_eq_some_iff.mpr hname).trans (ofName?_eq_some_iff.mpr hname').symm
  have hnames : name ∈ given.names ↔ name' ∈ given.names := by
    rw [← ofName?_eq_some_iff, ← ofName?_eq_some_iff, hkind]
  simp only [Gives, List.cons.injEq, and_assoc, exists_and_left, exists_eq_left', hnames]

theorem isNumber_of_renders {bound n : Nat} {word : String} (h : Text.Renders n word.toList)
    (hbound : bound ≤ 2 ^ 64) (hn : n < bound) : IsNumber bound word n :=
  ⟨Text.readNumber_of_renders h (hn.trans_le hbound), hn⟩

/-- A command that is written out, with all its numbers, gives itself. -/
theorem arguments_of_renders {command : Command} {words : List String} (hrange : command.InRange)
    (h : List.Forall₂ (fun n word => Text.Renders n word.toList) command.numbers words) :
    command.Arguments words := by
  cases command with
  | memory offset length =>
    obtain ⟨first, _, hfirst, hrest, rfl⟩ := List.forall₂_cons_left_iff.mp h
    obtain ⟨second, _, hsecond, hnil, rfl⟩ := List.forall₂_cons_left_iff.mp hrest
    obtain rfl := List.forall₂_nil_left_iff.mp hnil
    obtain ⟨hoffset, hlength⟩ := hrange
    have hlength' : length < 2 ^ 64 := by omega
    exact ⟨le_rfl, isNumber_of_renders hfirst le_rfl hoffset,
      isNumber_of_renders hsecond le_rfl hlength', hlength⟩
  | list n =>
    obtain ⟨word, _, hword, hnil, rfl⟩ := List.forall₂_cons_left_iff.mp h
    obtain rfl := List.forall₂_nil_left_iff.mp hnil
    exact ⟨le_rfl, isNumber_of_renders hword (by decide) hrange⟩
  | setBreakpoint n | deleteBreakpoint n =>
    obtain ⟨word, _, hword, hnil, rfl⟩ := List.forall₂_cons_left_iff.mp h
    obtain rfl := List.forall₂_nil_left_iff.mp hnil
    exact ⟨word, rfl, isNumber_of_renders hword (by decide) hrange⟩
  | _ => exact List.forall₂_nil_left_iff.mp h

/-- **What commands look like.**  A text is accepted as a command exactly if its words give it, and
all other texts are refused.  So it comes to the words of a text, not to the white space around
them, and one name of a command is as good as another.  A command with numbers in range is read
back however it is written out: with any of its names, any white space, and numbers in decimal or
in hexadecimal. -/
theorem parse_grammar :
    (∀ text command, parse text = .ok command ↔
      ∃ words, Text.Splits text words ∧ Gives words command) ∧
    (∀ text, (∃ error, parse text = .error error) ↔
      ∀ words command, Text.Splits text words → ¬ Gives words command) ∧
    (∀ text text' words, Text.Splits text words → Text.Splits text' words →
      parse text = parse text') ∧
    (∀ text text' name name' words (command : Command), name ∈ command.names →
      name' ∈ command.names → Text.Splits text (name :: words) →
      Text.Splits text' (name' :: words) →
      ∀ given, parse text = .ok given ↔ parse text' = .ok given) ∧
    ∀ text name words (command : Command), command.InRange → name ∈ command.names →
      List.Forall₂ (fun n word => Text.Renders n word.toList) command.numbers words →
      Text.Splits text (name :: words) → parse text = .ok command := by
  refine ⟨fun text command => parse_eq_ok_iff, ?_, ?_, ?_, ?_⟩
  · intro text
    constructor
    · rintro ⟨error, herror⟩ words command hwords h
      rw [parse_eq_ok_iff.mpr ⟨words, hwords, h⟩] at herror
      cases herror
    · intro h
      cases hparse : parse text with
      | error error => exact ⟨error, rfl⟩
      | ok command =>
        obtain ⟨words, hwords, hgives⟩ := parse_eq_ok_iff.mp hparse
        exact absurd hgives (h words command hwords)
  · intro text text' words h h'
    rw [parse_of_splits h, parse_of_splits h']
  · intro text text' name name' words command hname hname' h h' given
    rw [parse_of_splits h, parse_of_splits h', ofWords_eq_ok_iff, ofWords_eq_ok_iff]
    exact gives_congr hname hname'
  · intro text name words command hrange hname hwords h
    exact parse_eq_ok_iff.mpr
      ⟨name :: words, h, name, words, rfl, hname, arguments_of_renders hrange hwords⟩

/-- A text with other white space than blanks, and numbers with zeros in front and a capital. -/
theorem parse_grammar_memory :
    parse "\tmem  0x1F\u00a00064 " = .ok (.memory 31 64) ∧
    parse "memory 0x1F 0064" = .ok (.memory 31 64) := by
  obtain ⟨-, -, -, hnames, hwritten⟩ := parse_grammar
  have hoffset : Text.Renders 31 "0x1F".toList :=
    .hexadecimal 0 (Or.inl rfl) (by decide)
  have hdigits : "0064".toList = List.replicate 2 '0' ++ Nat.toDigits 10 64 := by decide
  have hlength : Text.Renders 64 "0064".toList := hdigits ▸ .decimal 2
  have hshort : Text.Splits "\tmem  0x1F\u00a00064 " ["mem", "0x1F", "0064"] :=
    Text.words_eq_iff.mp (by decide)
  have hlong : Text.Splits "memory 0x1F 0064" ["memory", "0x1F", "0064"] :=
    Text.words_eq_iff.mp (by decide)
  have hparse := hwritten _ "mem" _ (.memory 31 64) ⟨by decide, by decide⟩ (by decide)
    (.cons hoffset (.cons hlength .nil)) hshort
  have halias := hnames _ _ "mem" "memory" _ (.memory 31 64) (by decide) (by decide) hshort hlong
  exact ⟨hparse, (halias _).mp hparse⟩

end BytecodeDebugger.Command
