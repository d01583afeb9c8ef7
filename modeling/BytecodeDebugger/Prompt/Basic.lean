import BytecodeDebugger.Handler.Basic
import BytecodeDebugger.Prompt.Notice
import BytecodeDebugger.Text.Backspace
import BytecodeDebugger.Text.Blank

/-!
# The prompt

A handler that takes its commands from a list or from lines that are typed in, and prints what
happens.  When there are no more of them the run continues, at this pause and at every later one.

Commands from a list are taken as they are.  A line that is typed in goes through a line editor
(`LineEditor`), and what the editor delivers then loses the white space around it.  A blank text
stands for the command before it, of whatever pause; without a command before it, it is skipped.
Which editor it is is left open.  Where nobody edits the lines, what matters of one is what it makes
of backspaces (`LineEditor.erasing`).
-/

namespace BytecodeDebugger

/-- What a line editor makes of a line. -/
inductive Delivery where
  | text (text : String)
  /-- The line was interrupted, and ends the input for this pause. -/
  | interrupted
  /-- The editor reports that it failed. -/
  | failed (reason : String)
  /-- The editor broke off. -/
  | crashed
deriving DecidableEq, Repr

/-- A line editor, by what it makes of the lines that are typed in. -/
abbrev LineEditor := String → Delivery

/-- The editor by which backspaces erase what is before them.  It breaks off where they leave no
text. -/
def LineEditor.erasing : LineEditor := fun line =>
  match Text.erase? line with
  | some text => .text text
  | none => .crashed

/-- Where the commands come from. -/
inductive PromptInput where
  | list
  | typed (editor : LineEditor)

/-- A prompt under way. -/
structure Prompt where
  input : PromptInput
  /-- The commands or lines still to be taken. -/
  pending : List String := []
  lastCommand : Option String := none
  /-- What was printed, the latest first. -/
  notices : List Notice := []

/-- Whether the prompt goes on to the next line after one of them. -/
inductive Turn where
  | goOn
  | ended (how : HandlerEnd)
deriving DecidableEq, Repr

namespace Prompt

/-- The prompt that carries out a list of commands. -/
def ofCommands (commands : List String) : Prompt :=
  { input := .list, pending := commands }

/-- The prompt that reads lines that are typed in. -/
def ofLines (editor : LineEditor) (lines : List String) : Prompt :=
  { input := .typed editor, pending := lines }

/-- Prints something. -/
def announce (p : Prompt) (notice : Notice) : Prompt :=
  { p with notices := notice :: p.notices }

/-- All that was printed. -/
def printed (p : Prompt) : String :=
  String.join (p.notices.reverse.map Notice.text)

/-- Asks for the next line, if lines are typed in. -/
def await (p : Prompt) : Prompt :=
  match p.input with
  | .list => p
  | .typed _ => p.announce .waiting

/-- What is delivered of a line. -/
def deliver (p : Prompt) (line : String) : Delivery :=
  match p.input with
  | .list => .text line
  | .typed editor => editor line

/-- The command that a text stands for, if any. -/
def command? (p : Prompt) (text : String) : Option String :=
  match p.input with
  | .list => some text
  | .typed _ =>
    let text := Text.trim text
    if text.isEmpty then p.lastCommand else some text

/-- Shows a command of a list. -/
def echo (p : Prompt) (command : String) : Prompt :=
  match p.input with
  | .list => p.announce (.echo command)
  | .typed _ => p

/-- Announces the pause. -/
def announcePause (p : Prompt) : Dialogue (Except HandlerError Unit × Prompt) := do
  let position ← Dialogue.request .position
  let line ← Dialogue.request .line
  let reason ← Dialogue.request .reason
  let text ← Dialogue.request .sourceLine
  match position, line, text with
  | .ok position, .ok line, .ok text =>
    return (.ok (), p.announce (.paused position line reason text))
  | .error error, _, _ => return (.error (.session error), p)
  | _, .error error, _ => return (.error (.session error), p)
  | _, _, .error error => return (.error (.session error), p)

/-- Goes on after a command has been carried out or refused. -/
def afterCommand (p : Prompt) (command : String) : Dialogue (Turn × Prompt) := do
  let p := { p with lastCommand := some command }
  return (if ← Dialogue.request .isReleased then .ended .returned else .goOn, p)

/-- Carries out what a text stands for. -/
def obey (p : Prompt) (text : String) : Dialogue (Turn × Prompt) :=
  match p.command? text with
  | none => return (.goOn, p)
  | some command => do
    let p := p.echo command
    match ← Dialogue.request (.execute command) with
    | .ok reply => (p.announce (.reply reply)).afterCommand command
    | .error (.malformed error) =>
      Dialogue.log .rejectedCommand
      (p.announce (.rejected error)).afterCommand command
    | .error error => return (.ended (.failed (.session error)), p)

/-- Continues after a notice that says why there are no more commands at this pause. -/
def finishWith (p : Prompt) (notice : Notice) : Dialogue (HandlerEnd × Prompt) :=
  Dialogue.resume .continue ((p.announce notice).announce .continuing)

/-- Carries out what a line stands for. -/
def turn (p : Prompt) (line : String) : Dialogue (Turn × Prompt) :=
  match p.deliver line with
  | .text text => p.obey text
  | .interrupted => do
    let (how, p) ← p.finishWith .interrupted
    return (.ended how, p)
  | .failed reason => return (.ended (.failed (.ofItsOwn reason)), p)
  | .crashed => return (.ended .crashed, p)

/-- Continues for want of commands. -/
def finish (p : Prompt) : Dialogue (HandlerEnd × Prompt) :=
  match p.input with
  | .list => Dialogue.resume .continue (p.announce .continuing)
  | .typed _ => p.finishWith .endOfInput

/-- Takes the given lines, which are those still pending, until one ends the pause. -/
def converse (p : Prompt) : List String → Dialogue (HandlerEnd × Prompt)
  | [] => p.await.finish
  | line :: rest => do
    match ← { p.await with pending := rest }.turn line with
    | (.goOn, p) => converse p rest
    | (.ended how, p) => return (how, p)

/-- Announces the pause and takes lines until one ends it. -/
def onPause (p : Prompt) : Dialogue (HandlerEnd × Prompt) := do
  match ← p.announcePause with
  | (.ok (), p) => p.converse p.pending
  | (.error error, p) => return (.failed error, p)

end Prompt

/-- The handler that is a prompt. -/
def Handler.prompt : Handler Prompt where
  onPause := Prompt.onPause

end BytecodeDebugger
