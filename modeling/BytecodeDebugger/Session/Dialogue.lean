import BytecodeDebugger.Session.Basic

/-!
# Dialogues

What a handler does during a pause, as a value: finitely many requests to the session, each of
which may depend on the answers before it, and entries in the journal.  `Dialogue.run` holds a
dialogue with a session.

`Request.Answer` is the type of the answer to a request, so a dialogue cannot misread one.
-/

namespace BytecodeDebugger

/-- Something that can be asked of a session. -/
inductive Request where
  | execute (text : String)
  | perform (command : Command)
  | stack
  | memory (offset length : Nat)
  | memorySize
  /-- The position of the instruction that comes next. -/
  | position
  | line
  | reason
  | returnData
  | sourceLine
  /-- The source lines at most `radius` away from the current one. -/
  | sourceContext (radius : Nat)
  | addBreakpoint (line : Nat)
  | removeBreakpoint (line : Nat)
  | breakpoints
  | release (resume : Resume)
  | isReleased
  | resumption
deriving DecidableEq, Repr

namespace Request

/-- The type of the answer to a request. -/
abbrev Answer : Request → Type
  | execute _ | perform _ => Except SessionError Reply
  | stack => Except SessionError (List Word)
  | memory _ _ | returnData => Except SessionError ByteArray
  | memorySize | position => Except SessionError Nat
  | line => Except SessionError (Option Nat)
  | reason => PauseReason
  | sourceLine => Except SessionError (Option String)
  | sourceContext _ => Except SessionError (List SourceLine)
  | addBreakpoint _ | removeBreakpoint _ => Except SessionError Bool
  | breakpoints => Except SessionError (List Nat)
  | release _ => Except SessionError Unit
  | isReleased => Bool
  | resumption => Option Resume

end Request

/-- The answer of a session to a request, and the session afterwards. -/
def Session.answer (s : Session) : (request : Request) → request.Answer × Session
  | .execute text => s.execute text
  | .perform command => s.perform command
  | .stack => (s.stack?, s)
  | .memory offset length => (s.memory? offset length, s)
  | .memorySize => (s.memorySize?, s)
  | .position => (s.position?, s)
  | .line => (s.line?, s)
  | .reason => (s.reason, s)
  | .returnData => (s.returnData?, s)
  | .sourceLine => (s.sourceLine?, s)
  | .sourceContext radius => (s.sourceContext? radius, s)
  | .addBreakpoint line => s.addBreakpoint line
  | .removeBreakpoint line => s.removeBreakpoint line
  | .breakpoints => (s.breakpoints?, s)
  | .release resume => s.release resume
  | .isReleased => (s.isReleased, s)
  | .resumption => (s.resumption, s)

/-- What a handler does during a pause, with a value of type `α` at the end. -/
inductive Dialogue (α : Type) where
  | done (value : α)
  /-- A request, and what comes after its answer. -/
  | ask (request : Request) (next : request.Answer → Dialogue α)
  /-- An entry in the journal, and what comes after it. -/
  | note (event : Event) (next : Dialogue α)

namespace Dialogue

/-- One dialogue after another. -/
def bind {α β : Type} : Dialogue α → (α → Dialogue β) → Dialogue β
  | done value, f => f value
  | ask request next, f => ask request fun answer => (next answer).bind f
  | note event next, f => note event (next.bind f)

instance : Monad Dialogue where
  pure := done
  bind := bind

/-- Makes a request. -/
def request (r : Request) : Dialogue r.Answer :=
  ask r done

/-- Makes an entry in the journal. -/
def log (event : Event) : Dialogue Unit :=
  note event (done ())

/-- Holds a dialogue with a session. -/
def run {α : Type} : Dialogue α → Session → α × Session
  | done value, s => (value, s)
  | ask request next, s =>
    let (answer, s) := s.answer request
    (next answer).run s
  | note event next, s => next.run (s.record event)

end Dialogue

end BytecodeDebugger
