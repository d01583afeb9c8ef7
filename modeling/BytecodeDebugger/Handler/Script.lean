import BytecodeDebugger.Handler.Basic

/-!
# Scripts

A handler that carries out a list of commands, over as many pauses as they last, and keeps a record
of every pause and every command.  Texts that are no command are recorded and skipped; once the
commands are used up the run continues.
-/

namespace BytecodeDebugger

/-- What a pause looked like. -/
structure PauseRecord where
  position : Nat
  line : Option Nat
  reason : PauseReason
  /-- The stack, from the bottom up. -/
  stack : List Word
deriving DecidableEq, Repr

/-- What became of a command. -/
structure ScriptEntry where
  position : Nat
  command : String
  /-- The reply, or why the text is no command. -/
  outcome : Except CommandError Reply

/-- A list of commands under way. -/
structure Script where
  pending : List String := []
  pauses : List PauseRecord := []
  transcript : List ScriptEntry := []

namespace Script

/-- A script that is about to begin. -/
def ofCommands (commands : List String) : Script :=
  { pending := commands }

/-- Adds a pause to the record. -/
def addPause (s : Script) (pause : PauseRecord) : Script :=
  { s with pauses := s.pauses ++ [pause] }

/-- Adds a command to the record. -/
def addEntry (s : Script) (entry : ScriptEntry) : Script :=
  { s with transcript := s.transcript ++ [entry] }

/-- Carries out the given commands, which are those still pending, until one ends the pause. -/
def converse (position : Nat) (s : Script) : List String → Dialogue (HandlerEnd × Script)
  | [] => Dialogue.resume .continue { s with pending := [] }
  | command :: rest => do
    let s := { s with pending := rest }
    match ← Dialogue.request (.execute command) with
    | .ok reply =>
      let s := s.addEntry { position, command, outcome := .ok reply }
      if ← Dialogue.request .isReleased then return (.returned, s)
      else converse position s rest
    | .error (.malformed error) =>
      Dialogue.log (.skippedCommand command error.message)
      -- A text that is no command has ended nothing, but the session is asked all the same.
      let s := s.addEntry { position, command, outcome := .error error }
      if ← Dialogue.request .isReleased then return (.returned, s)
      else converse position s rest
    | .error error => return (.failed (.session error), s)

/-- Records the pause, and carries out commands until one ends it. -/
def onPause (s : Script) : Dialogue (HandlerEnd × Script) := do
  let position ← Dialogue.request .position
  let line ← Dialogue.request .line
  let reason ← Dialogue.request .reason
  let stack ← Dialogue.request .stack
  match position, line, stack with
  | .ok position, .ok line, .ok stack =>
    (s.addPause { position, line, reason, stack }).converse position s.pending
  | .error error, _, _ => return (.failed (.session error), s)
  | _, .error error, _ => return (.failed (.session error), s)
  | _, _, .error error => return (.failed (.session error), s)

end Script

/-- The handler that carries out a script. -/
def Handler.script : Handler Script where
  onPause := Script.onPause

end BytecodeDebugger
