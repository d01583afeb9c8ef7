import BytecodeDebugger.Prompt.Basic
import BytecodeDebugger.Proofs.Handler.Script

/-!
# The prompt and the script

A prompt takes one line after another (`Prompt.converse_cons`, `Prompt.converse_skip`) and continues
when there are none left (`Prompt.converse_nil`).  What it takes from a line it carries
out as a script carries out a command, and it prints where the script records.

So a prompt with a list of commands and a script with the same list do the same
(`Debugger.prompt_agrees_with_script`): run, breakpoints and counts are the same, and what the
prompt has printed of pauses and commands is what the script has recorded (`Prompt.Mirrors`).
-/

namespace BytecodeDebugger

namespace Notice

/-- The command that is shown, if one is. -/
def echo? : Notice → Option String
  | echo command => some command
  | _ => none

/-- Position, line and reason of the pause that is announced, if one is. -/
def pause? : Notice → Option (Nat × Option Nat × PauseReason)
  | paused position line reason _ => some (position, line, reason)
  | _ => none

/-- What is printed about the answer to a command. -/
def ofAnswer : Except CommandError Reply → Notice
  | .ok answer => .reply answer
  | .error error => .rejected error

end Notice

namespace Prompt

variable {p : Prompt} {s s' : Session}

/-- The prompt after it has taken a command from the first of the lines still to be taken. -/
def taking (p : Prompt) (rest : List String) (command : String)
    (answer : Except CommandError Reply) : Prompt :=
  { (({ p.await with pending := rest }).echo command).announce (.ofAnswer answer) with
    lastCommand := some command }

/-! ### A prompt at work -/

theorem await_eq (p : Prompt) : ∃ notices, p.await = { p with notices } := by
  obtain ⟨input, pending, lastCommand, notices⟩ := p
  cases input <;> exact ⟨_, rfl⟩

theorem deliver_await (p : Prompt) (rest : List String) (line : String) :
    { p.await with pending := rest }.deliver line = p.deliver line := by
  obtain ⟨notices, hawait⟩ := p.await_eq
  rw [hawait]
  rfl

theorem turn_await {line text : String} (hdeliver : p.deliver line = .text text)
    (rest : List String) : { p.await with pending := rest }.turn line =
      { p.await with pending := rest }.obey text := by
  simp only [turn, deliver_await, hdeliver]

theorem command?_await (p : Prompt) (rest : List String) (line : String) :
    { p.await with pending := rest }.command? line = p.command? line := by
  obtain ⟨notices, hawait⟩ := p.await_eq
  rw [hawait]
  rfl

/-- A prompt carries out what its first line stands for, prints the answer, and goes on with the
rest if that did not end the pause. -/
theorem converse_cons {line text command : String} (hdeliver : p.deliver line = .text text)
    (hcommand : p.command? text = some command) (rest : List String) :
    p.converse (line :: rest) = (do
      let answer ← Dialogue.request (.execute command)
      match answer with
      | .ok reply =>
        if ← Dialogue.request .isReleased then return (.returned, p.taking rest command (.ok reply))
        else (p.taking rest command (.ok reply)).converse rest
      | .error (.malformed error) =>
        Dialogue.log .rejectedCommand
        if ← Dialogue.request .isReleased then
          return (.returned, p.taking rest command (.error error))
        else (p.taking rest command (.error error)).converse rest
      | .error error =>
        return (.failed (.session error), { p.await with pending := rest }.echo command)) := by
  simp only [converse, turn_await hdeliver, obey, command?_await, hcommand]
  -- The two ask for the same, and go on in the same way after each answer.
  refine congrArg (Dialogue.ask (.execute command)) (funext fun answer => ?_)
  rcases answer with (_ | error) | reply
  · rfl
  · refine congrArg (Dialogue.note .rejectedCommand) ?_
    refine congrArg (Dialogue.ask .isReleased) (funext fun released => ?_)
    cases released <;> rfl
  · refine congrArg (Dialogue.ask .isReleased) (funext fun released => ?_)
    cases released <;> rfl

/-- A line that stands for a command comes to what the command comes to. -/
theorem run_converse_cons (h : s.resumption = none) {line text command : String}
    (hdeliver : p.deliver line = .text text) (hcommand : p.command? text = some command)
    (rest : List String) :
    ∃ answer s₁, (s.execute command).2.Alike s₁ ∧
      (p.converse (line :: rest)).run s =
        (if s₁.isReleased then ((.returned, p.taking rest command answer), s₁)
          else ((p.taking rest command answer).converse rest).run s₁) ∧
      (p.converse (line :: rest)).commands s =
        command :: if s₁.isReleased then []
          else ((p.taking rest command answer).converse rest).commands s₁ := by
  rw [converse_cons hdeliver hcommand, Dialogue.run_bind, Dialogue.commands_bind,
    Dialogue.run_request, Session.answer]
  cases hanswer : (s.execute command).1 with
  | ok reply =>
    exact ⟨.ok reply, _, .refl _, Dialogue.run_ifReleased _ _ _,
      congrArg (command :: ·) (Dialogue.commands_ifReleased _ _ _)⟩
  | error error =>
    cases error with
    | released => exact absurd hanswer (Session.execute_ne_released h command)
    | malformed error =>
      exact ⟨.error error, _, .record _ .rejectedCommand, Dialogue.run_ifReleased _ _ _,
        congrArg (command :: ·) (Dialogue.commands_ifReleased _ _ _)⟩

/-- A prompt passes over a line that stands for no command. -/
theorem converse_skip {line text : String} (hdeliver : p.deliver line = .text text)
    (hcommand : p.command? text = none) (rest : List String) :
    p.converse (line :: rest) = { p.await with pending := rest }.converse rest := by
  simp only [converse, turn_await hdeliver, obey, command?_await, hcommand]
  rfl

/-- A prompt continues at a line that is interrupted. -/
theorem converse_interrupted {line : String} (hdeliver : p.deliver line = .interrupted)
    (rest : List String) : p.converse (line :: rest) = Dialogue.resume .continue
      (({ p.await with pending := rest }.announce .interrupted).announce .continuing) := by
  simp only [converse, turn, deliver_await, hdeliver]
  refine congrArg (Dialogue.ask (.release .continue)) (funext fun answer => ?_)
  cases answer <;> rfl

/-- The prompt after it has continued for want of lines. -/
def finishing (p : Prompt) : Prompt :=
  match p.input with
  | .list => p.announce .continuing
  | .typed _ => (p.await.announce .endOfInput).announce .continuing

theorem finishing_eq (p : Prompt) : ∃ notices, p.finishing = { p with notices } := by
  obtain ⟨input, pending, lastCommand, notices⟩ := p
  cases input <;> exact ⟨_, rfl⟩

theorem converse_nil (p : Prompt) :
    p.converse [] = Dialogue.resume .continue p.finishing := by
  obtain ⟨input, pending, lastCommand, notices⟩ := p
  cases input <;> rfl

/-- At a pause a prompt announces it, and takes its lines. -/
theorem onPause_spec (h : s.resumption = none) (p : Prompt) :
    let announced := p.announce (.paused s.position s.line s.reason s.currentText)
    p.onPause.run s = (announced.converse p.pending).run s ∧
      p.onPause.commands s = (announced.converse p.pending).commands s := by
  intro announced
  have hannounce : p.announcePause.run s = ((.ok (), announced), s) := by
    simp only [announcePause, Dialogue.run_bind]
    rw [Dialogue.run_request, Dialogue.run_request, Dialogue.run_request, Dialogue.run_request]
    simp only [Session.answer, Session.position?, Session.line?, Session.sourceLine?,
      Session.whileSuspended_of_suspended h]
    rfl
  have hcommands : p.announcePause.commands s = [] := by
    simp only [announcePause, Dialogue.commands_bind]
    rw [Dialogue.run_request, Dialogue.run_request, Dialogue.run_request, Dialogue.run_request]
    simp only [Session.answer, Session.position?, Session.line?, Session.sourceLine?,
      Session.whileSuspended_of_suspended h]
    rfl
  constructor
  · rw [onPause, Dialogue.run_bind, hannounce]
    rfl
  · rw [onPause, Dialogue.commands_bind, hannounce, hcommands]
    rfl

/-! ### What is printed -/

/-- The commands that were shown after the text of the prompt, in order. -/
def echoed (p : Prompt) : List String :=
  p.notices.reverse.filterMap Notice.echo?

/-- The pauses that were announced, in order. -/
def announced (p : Prompt) : List (Nat × Option Nat × PauseReason) :=
  p.notices.reverse.filterMap Notice.pause?

theorem echoed_announce (p : Prompt) (notice : Notice) :
    (p.announce notice).echoed = p.echoed ++ notice.echo?.toList := by
  rw [echoed, announce, List.reverse_cons, List.filterMap_append]
  cases notice <;> rfl

theorem announced_announce (p : Prompt) (notice : Notice) :
    (p.announce notice).announced = p.announced ++ notice.pause?.toList := by
  rw [announced, announce, List.reverse_cons, List.filterMap_append]
  cases notice <;> rfl

/-- A prompt with a list of commands that has printed what a script has recorded, with the same
commands still to be carried out. -/
structure Mirrors (p : Prompt) (script : Script) : Prop where
  input : p.input = .list
  pending : p.pending = script.pending
  /-- The commands shown are those in the transcript. -/
  echoed : p.echoed = script.transcript.map ScriptEntry.command
  /-- The pauses announced are those on record. -/
  announced : p.announced =
    script.pauses.map fun pause => (pause.position, pause.line, pause.reason)

theorem Mirrors.announce {script : Script} (h : p.Mirrors script) {notice : Notice}
    (hecho : notice.echo? = none) (hpause : notice.pause? = none) :
    (p.announce notice).Mirrors script := by
  refine ⟨h.input, h.pending, ?_, ?_⟩
  · rw [echoed_announce, hecho, h.echoed]
    exact List.append_nil _
  · rw [announced_announce, hpause, h.announced]
    exact List.append_nil _

/-- What the prompt prints about a command is what the script records. -/
theorem Mirrors.taking {script : Script} (h : p.Mirrors script) (rest : List String)
    (command : String) (answer outcome : Except CommandError Reply) (position : Nat) :
    (p.taking rest command answer).Mirrors
      ({ script with pending := rest }.addEntry { position, command, outcome }) := by
  obtain ⟨input, pending, lastCommand, notices⟩ := p
  obtain ⟨rfl, -, hechoed, hannounced⟩ := h
  have hshown : Mirrors ⟨.list, rest, some command, .echo command :: notices⟩
      ({ script with pending := rest }.addEntry { position, command, outcome }) := by
    refine ⟨rfl, rfl, ?_, ?_⟩
    · change (Prompt.announce ⟨.list, pending, lastCommand, notices⟩ (.echo command)).echoed = _
      rw [echoed_announce, hechoed, Script.addEntry, List.map_append]
      rfl
    · change (Prompt.announce ⟨.list, pending, lastCommand, notices⟩ (.echo command)).announced = _
      rw [announced_announce, hannounced]
      exact List.append_nil _
  exact hshown.announce (by cases answer <;> rfl) (by cases answer <;> rfl)

theorem converse_mirrors (commands : List String) (position : Nat) {script : Script}
    (hmirrors : p.Mirrors script) (hpending : p.pending = commands) (hs : s.Alike s')
    (h : s.resumption = none) :
    SameOutcome Mirrors ((p.converse commands).run s)
      ((script.converse position commands).run s') := by
  have h' : s'.resumption = none := hs.resumption_eq.trans h
  induction commands generalizing p script s s' with
  | nil =>
    rw [converse_nil, Script.converse, Dialogue.run_resume h, Dialogue.run_resume h']
    have hfinishing : p.finishing = p.announce .continuing := by rw [finishing, hmirrors.input]
    obtain ⟨hinput, -, hechoed, hannounced⟩ := hmirrors
    have hlast : p.Mirrors { script with pending := [] } :=
      ⟨hinput, hpending, hechoed, hannounced⟩
    rw [hfinishing]
    exact ⟨rfl, hlast.announce rfl rfl, (hs.release .continue).2⟩
  | cons command rest ih =>
    have hdeliver : p.deliver command = .text command := by rw [deliver, hmirrors.input]
    have hcommand : p.command? command = some command := by rw [command?, hmirrors.input]
    obtain ⟨answer, s₁, hs₁, hrun, -⟩ := run_converse_cons h hdeliver hcommand rest
    obtain ⟨outcome, s₁', hs₁', hrun'⟩ := Script.run_converse_cons h' position script command rest
    have halike : s₁.Alike s₁' := hs₁.symm.trans ((hs.execute command).2.trans hs₁')
    have htaking := hmirrors.taking rest command answer outcome position
    rw [hrun, hrun']
    exact .unlessReleased halike htaking fun hresumption =>
      ih htaking htaking.pending halike hresumption (halike.resumption_eq.trans hresumption)

theorem agree_mirrors : Handler.Agree Mirrors Handler.prompt Handler.script := by
  intro p script s s' hmirrors hs h
  have hannounced : (p.announce (.paused s.position s.line s.reason s.currentText)).Mirrors
      (script.addPause ⟨s'.position, s'.line, s'.reason, s'.machine.stack.fromBottom⟩) := by
    obtain ⟨journal, rfl⟩ := hs
    refine ⟨hmirrors.input, hmirrors.pending, ?_, ?_⟩
    · rw [echoed_announce, hmirrors.echoed]
      exact List.append_nil _
    · rw [announced_announce, hmirrors.announced, Script.addPause, List.map_append]
      rfl
  change SameOutcome Mirrors (p.onPause.run s) (script.onPause.run s')
  rw [(onPause_spec h p).1, Script.run_onPause (hs.resumption_eq.trans h), ← hmirrors.pending]
  exact converse_mirrors p.pending s'.position hannounced rfl hs h

end Prompt

namespace Debugger

/-- **A prompt with a list of commands and a script with the same list agree.**  They lead to the
same run, which stands at the same point before each instruction and ends in the same way after as
many steps, with the same call, breakpoints and number of pauses at each line.  The prompt has
announced the pauses that the script has recorded, and has shown the commands in its transcript. -/
theorem prompt_agrees_with_script (d : Debugger) (commands : List String) (frame : Frame)
    (journal : Journal) :
    let prompt := Prompt.ofCommands commands
    let script := Script.ofCommands commands
    (∀ k, Option.Rel (Run.Alike Prompt.Mirrors)
      (d.interpreter.stateAt? Handler.prompt (d.start frame prompt journal) k)
      (d.interpreter.stateAt? Handler.script (d.start frame script journal) k)) ∧
    ∀ n, Option.Rel (RunResult.Alike Prompt.Mirrors)
      (d.run Handler.prompt n prompt frame journal)
      (d.run Handler.script n script frame journal) := by
  intro prompt script
  have hstart : prompt.Mirrors script := ⟨rfl, rfl, rfl, rfl⟩
  exact d.run_alike Prompt.agree_mirrors hstart frame journal

end Debugger

end BytecodeDebugger
