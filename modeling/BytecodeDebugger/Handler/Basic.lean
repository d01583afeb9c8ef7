import BytecodeDebugger.Session.Dialogue

/-!
# Handlers

A handler is called at every pause and holds a dialogue with the session, from its own state.  It
is expected to end the pause, but the interface does not force it to.
-/

namespace BytecodeDebugger

/-- Why a handler gave up. -/
inductive HandlerError where
  | ofItsOwn (text : String)
  | session (error : SessionError)
deriving DecidableEq, Repr

def HandlerError.message : HandlerError → String
  | ofItsOwn text => text
  | session error => error.message

/-- How a call of a handler ended. -/
inductive HandlerEnd where
  | returned
  | failed (error : HandlerError)
  /-- It broke off in the middle. -/
  | crashed
deriving DecidableEq, Repr

/-- What to do at a pause, for handlers with a state of type `σ`. -/
structure Handler (σ : Type) where
  /-- The dialogue held at a pause, with the handler's state before and after. -/
  onPause : σ → Dialogue (HandlerEnd × σ)

/-- Ends the pause, and the handler's call with it. -/
def Dialogue.resume {σ : Type} (resume : Resume) (state : σ) : Dialogue (HandlerEnd × σ) := do
  match ← Dialogue.request (.release resume) with
  | .ok () => return (.returned, state)
  | .error error => return (.failed (.session error), state)

/-- The handler that always continues.  Its state is the number of pauses. -/
def Handler.continueAlways : Handler Nat where
  onPause pauses := Dialogue.resume .continue (pauses + 1)

end BytecodeDebugger
