import BytecodeDebugger.Handler.Script
import BytecodeDebugger.Proofs.Run.Lockstep
import BytecodeDebugger.Proofs.Session.Dialogue
import BytecodeDebugger.Proofs.Session.Release
import BytecodeDebugger.Proofs.Session.Reply

/-!
# Commands that only show something

A command acts if it ends the pause or edits the breakpoints; the others show something, and leave
the session as it is (`Session.execute_of_not_acting`).  So does a text that is no command.

A script carries out its commands one after the other (`Script.run_converse_cons`), and leaving out
those that do not act changes nothing but what it has recorded of them
(`Debugger.script_noninterference`).  The two scripts take a different number of commands at each
pause; what they have left to do stays the same but for commands that do not act
(`Script.Prunes`), and that keeps them together from pause to pause.
-/

namespace BytecodeDebugger

namespace Command

/-- Whether a command does more than show something. -/
def acts : Command → Bool
  | .continue | .step | .setBreakpoint _ | .deleteBreakpoint _ => true
  | _ => false

/-- Whether a text writes a command that does more than show something. -/
def acting (text : String) : Bool :=
  (parse text).toOption.any acts

end Command

namespace Session

variable {s : Session}

theorem perform_of_not_acts {command : Command} (h : command.acts = false) :
    (s.perform command).2 = s := by
  cases command with
  | «continue» | step | setBreakpoint line | deleteBreakpoint line => cases h
  | _ => rfl

/-- A text that writes no command that acts leaves the session as it is. -/
theorem execute_of_not_acting {text : String} (h : Command.acting text = false) :
    (s.execute text).2 = s := by
  obtain hs | ⟨resume, hs⟩ := Option.eq_none_or_eq_some s.resumption
  · rw [execute_of_suspended hs]
    rw [Command.acting] at h
    cases hparse : Command.parse text with
    | error error => rfl
    | ok command =>
      rw [hparse] at h
      exact perform_of_not_acts h
  · rw [execute_of_released hs]

end Session

namespace Script

variable {s s' : Session}

/-! ### A script at work -/

/-- A script carries out its first command, and goes on with the rest if that did not end the pause.
What it records of the command tells whether it is one and how it ended the pause. -/
theorem run_converse_command (h : s.resumption = none) (position : Nat) (script : Script)
    (command : String) (rest : List String) :
    ∃ outcome s₁, (∀ error, outcome = .error error ↔ Command.parse command = .error error) ∧
      outcome.toOption.bind Reply.release? = s₁.resumption ∧
      (s.execute command).2.Alike s₁ ∧
      (script.converse position (command :: rest)).run s =
        let script' := { script with pending := rest }.addEntry { position, command, outcome }
        if s₁.isReleased then ((.returned, script'), s₁)
        else (script'.converse position rest).run s₁ := by
  have hresumption : (s.execute command).2.resumption =
      (s.execute command).1.toOption.bind Reply.release? := by
    have hadvanced := (s.advanced_answer (.execute command)).resumption_eq
    rw [h, Option.none_or] at hadvanced
    exact hadvanced
  have hrefused (error : CommandError) : (s.execute command).1 = .error (.malformed error) ↔
      Command.parse command = .error error := Session.execute_eq_malformed_iff h
  rw [converse, Dialogue.run_bind, Dialogue.run_request, Session.answer]
  cases hanswer : (s.execute command).1 with
  | ok reply =>
    rw [hanswer] at hresumption hrefused
    refine ⟨.ok reply, _, fun error => ?_, hresumption.symm, .refl _, Dialogue.run_ifReleased _ _ _⟩
    rw [← hrefused error]
    simp
  | error error =>
    cases error with
    | released => exact absurd hanswer (Session.execute_ne_released h command)
    | malformed error =>
      rw [hanswer] at hresumption hrefused
      have hrecord : (s.execute command).2.Alike ((s.execute command).2.record
        (.skippedCommand command error.message)) := .record _ _
      refine ⟨.error error, _, fun error' => ?_, ?_, hrecord, Dialogue.run_ifReleased _ _ _⟩
      · rw [← hrefused error']
        simp
      · rw [hrecord.resumption_eq, hresumption]
        rfl

theorem run_converse_cons (h : s.resumption = none) (position : Nat) (script : Script)
    (command : String) (rest : List String) :
    ∃ outcome s₁, (s.execute command).2.Alike s₁ ∧
      (script.converse position (command :: rest)).run s =
        let script' := { script with pending := rest }.addEntry { position, command, outcome }
        if s₁.isReleased then ((.returned, script'), s₁)
        else (script'.converse position rest).run s₁ := by
  obtain ⟨outcome, s₁, -, -, hs₁, hrun⟩ := run_converse_command h position script command rest
  exact ⟨outcome, s₁, hs₁, hrun⟩

/-- At a pause a script records what it looks like, and carries out its commands. -/
theorem run_onPause (h : s.resumption = none) (script : Script) :
    script.onPause.run s =
      ((script.addPause ⟨s.position, s.line, s.reason, s.machine.stack.fromBottom⟩).converse
        s.position script.pending).run s := by
  simp only [onPause, Dialogue.run_bind]
  rw [Dialogue.run_request, Dialogue.run_request, Dialogue.run_request, Dialogue.run_request]
  simp only [Session.answer, Session.position?, Session.line?, Session.stack?,
    Session.whileSuspended_of_suspended h]

/-! ### Leaving out commands -/

/-- A script that is another one but for commands that do not act: it has seen the same pauses, and
is to carry out those of the other's commands that act. -/
structure Prunes (script pruned : Script) : Prop where
  pauses : pruned.pauses = script.pauses
  pending : pruned.pending = script.pending.filter Command.acting

theorem converse_pruned (commands : List String) (position position' : Nat)
    {script pruned : Script} (hpauses : pruned.pauses = script.pauses) (hs : s.Alike s')
    (h : s.resumption = none) :
    SameOutcome Prunes ((script.converse position commands).run s)
      ((pruned.converse position' (commands.filter Command.acting)).run s') := by
  induction commands generalizing script pruned s s' with
  | nil =>
    rw [List.filter_nil, converse, converse, Dialogue.run_resume h,
      Dialogue.run_resume (hs.resumption_eq.trans h)]
    exact ⟨rfl, ⟨hpauses, rfl⟩, (hs.release .continue).2⟩
  | cons command rest ih =>
    obtain ⟨outcome, s₁, hs₁, hrun⟩ := run_converse_cons h position script command rest
    cases hacting : Command.acting command with
    | true =>
      -- Both carry out the command, and their sessions are alike before and after it.
      obtain ⟨outcome', s₁', hs₁', hrun'⟩ := run_converse_cons (hs.resumption_eq.trans h) position'
        pruned command (rest.filter Command.acting)
      have halike : s₁.Alike s₁' := hs₁.symm.trans ((hs.execute command).2.trans hs₁')
      rw [List.filter_cons_of_pos hacting, hrun, hrun']
      exact .unlessReleased halike ⟨hpauses, rfl⟩ fun hresumption => ih hpauses halike hresumption
    | false =>
      -- Only one of them carries out the command, which leaves its session as it is.
      rw [Session.execute_of_not_acting hacting] at hs₁
      have hresumption : s₁.resumption = none := hs₁.resumption_eq.trans h
      have hreleased : s₁.isReleased = false := by rw [Session.isReleased, hresumption]; rfl
      rw [List.filter_cons_of_neg (by simp [hacting]), hrun, hreleased]
      exact ih hpauses (hs₁.symm.trans hs) hresumption

/-- A script and the script without the commands that do not act leave a pause in the same way. -/
theorem agree_prunes : Handler.Agree Prunes Handler.script Handler.script := by
  intro script pruned s s' hprunes hs h
  have hrecord : (pruned.addPause ⟨s'.position, s'.line, s'.reason,
      s'.machine.stack.fromBottom⟩).pauses =
      (script.addPause ⟨s.position, s.line, s.reason, s.machine.stack.fromBottom⟩).pauses := by
    obtain ⟨journal, rfl⟩ := hs
    exact congrArg (· ++ _) hprunes.pauses
  change SameOutcome Prunes (script.onPause.run s) (pruned.onPause.run s')
  rw [run_onPause h, run_onPause (hs.resumption_eq.trans h), hprunes.pending]
  exact converse_pruned script.pending s.position s'.position hrecord hs h

end Script

namespace Debugger

/-- **Looking on does not interfere.**  Take from a script all texts but those that write a command
that ends the pause or edits the breakpoints.  The run is the same: it stands at the same point
before each instruction, with the same pauses behind it, and ends in the same way after as many
steps, with the same call, breakpoints and number of pauses at each line.  What is left of the
script at its end is what is left of the other, without the commands taken from it. -/
theorem script_noninterference (d : Debugger) (commands : List String) (frame : Frame)
    (journal : Journal) :
    let script := Script.ofCommands commands
    let pruned := Script.ofCommands (commands.filter Command.acting)
    (∀ k, Option.Rel (Run.Alike Script.Prunes)
      (d.interpreter.stateAt? Handler.script (d.start frame script journal) k)
      (d.interpreter.stateAt? Handler.script (d.start frame pruned journal) k)) ∧
    ∀ n, Option.Rel (RunResult.Alike Script.Prunes)
      (d.run Handler.script n script frame journal)
      (d.run Handler.script n pruned frame journal) := by
  intro script pruned
  have hstart : Script.Prunes script pruned := ⟨rfl, rfl⟩
  exact d.run_alike Script.agree_prunes hstart frame journal

end Debugger

end BytecodeDebugger
