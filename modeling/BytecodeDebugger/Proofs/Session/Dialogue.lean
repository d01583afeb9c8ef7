import BytecodeDebugger.Handler.Basic
import BytecodeDebugger.Proofs.Session.Exchange

/-!
# Dialogues one after another

What a dialogue comes to, and which texts it asks to have carried out (`Dialogue.commands`), for the
ways in which handlers put dialogues together: one after another, the question whether the pause is
over, and the end of a pause.
-/

namespace BytecodeDebugger

/-- The text that the exchange asks to have carried out, if it does. -/
def Exchange.text? : Exchange → Option String
  | ⟨.execute text, _⟩ => some text
  | _ => none

namespace Dialogue

variable {α β σ : Type}

/-- The texts that a dialogue asks to have carried out, in order. -/
def commands (d : Dialogue α) (s : Session) : List String :=
  (d.exchanges s).filterMap Exchange.text?

theorem run_request (r : Request) (s : Session) : (Dialogue.request r).run s = s.answer r :=
  rfl

theorem run_bind (d : Dialogue α) (f : α → Dialogue β) (s : Session) :
    (d >>= f).run s = (f (d.run s).1).run (d.run s).2 := by
  change (d.bind f).run s = _
  induction d generalizing s with
  | done value => rfl
  | ask request next ih => exact ih (s.answer request).1 (s.answer request).2
  | note event next ih => exact ih (s.record event)

theorem exchanges_bind (d : Dialogue α) (f : α → Dialogue β) (s : Session) :
    (d >>= f).exchanges s = d.exchanges s ++ (f (d.run s).1).exchanges (d.run s).2 := by
  change (d.bind f).exchanges s = _
  induction d generalizing s with
  | done value => rfl
  | ask request next ih =>
    exact congrArg (s.exchange request :: ·) (ih (s.answer request).1 (s.answer request).2)
  | note event next ih => exact ih (s.record event)

theorem commands_bind (d : Dialogue α) (f : α → Dialogue β) (s : Session) :
    (d >>= f).commands s = d.commands s ++ (f (d.run s).1).commands (d.run s).2 := by
  rw [commands, exchanges_bind, List.filterMap_append]
  rfl

/-- A dialogue that goes on according to whether the pause is over. -/
theorem run_ifReleased (d d' : Dialogue α) (s : Session) :
    (do if ← Dialogue.request .isReleased then d else d').run s =
      if s.isReleased then d.run s else d'.run s := by
  change (if s.isReleased then d else d').run s = _
  cases s.isReleased <;> rfl

theorem commands_ifReleased (d d' : Dialogue α) (s : Session) :
    (do if ← Dialogue.request .isReleased then d else d').commands s =
      if s.isReleased then d.commands s else d'.commands s := by
  change (if s.isReleased then d else d').commands s = _
  cases s.isReleased <;> rfl

theorem run_resume {s : Session} (h : s.resumption = none) (resume : Resume) (state : σ) :
    (Dialogue.resume resume state).run s = ((.returned, state), (s.release resume).2) := by
  rw [Dialogue.resume, run_bind, run_request, Session.answer, Session.release_of_suspended h]
  rfl

theorem commands_resume (s : Session) (resume : Resume) (state : σ) :
    (Dialogue.resume resume state).commands s = [] := by
  rw [Dialogue.resume, commands_bind, run_request]
  cases (s.answer (.release resume)).1 <;> rfl

end Dialogue

end BytecodeDebugger
