import BytecodeDebugger.Proofs.Handler.Prompt
import BytecodeDebugger.Proofs.Run.Resumption
import BytecodeDebugger.Proofs.Text.Backspace
import Mathlib.Data.List.Forall2

/-!
# Lines that are typed in

Lines that are typed in stand for commands: a blank one for the line before it that is not, if there
is one, and any other for itself (`Prompt.commandsFrom`).  Which command a blank line stands for may
be up to a line of an earlier pause.  The prompt remembers no more than the last command, and that
is enough: what it still has to take stands for what a prompt with the list of commands still has to
take (`Prompt.Follows`).

So the two lead to the same run (`Debugger.typed_refines_list`), if the editor delivers the lines.
The editor by which backspaces erase delivers lines that have none (`Prompt.delivers_self`).
-/

namespace BytecodeDebugger

/-- The texts that the handler asked to have carried out during the call, in order. -/
def HandlerCall.commands {σ : Type} (c : HandlerCall σ) : List String :=
  c.dialogue.commands c.session

namespace Prompt

/-- The editor delivers a text for each line that is typed in. -/
def Delivers (editor : LineEditor) (lines delivered : List String) : Prop :=
  List.Forall₂ (fun line text => editor line = .text text) lines delivered

theorem delivers_self {lines : List String}
    (h : ∀ line ∈ lines, Text.Typing.backspace ∉ line.toList) :
    Delivers .erasing lines lines := by
  refine List.forall₂_same.mpr fun line hline => ?_
  rw [LineEditor.erasing, Text.erase?_of_not_mem (h line hline)]

/-- The commands that lines stand for, after lines of which the last that was not blank is given.  A
line that is blank when trimmed stands for the last one before it that is not, or for nothing if
there is none; every other line stands for itself, trimmed. -/
def commandsFrom (last : Option String) : List String → List String
  | [] => []
  | line :: rest =>
    if (Text.trim line).isEmpty then last.toList ++ commandsFrom last rest
    else Text.trim line :: commandsFrom (some (Text.trim line)) rest

variable {p q : Prompt} {s s' : Session} {editor : LineEditor}

theorem commandsFrom_of_command (hp : p.input = .typed editor) {text command : String}
    (hcommand : p.command? text = some command) (rest : List String) :
    commandsFrom p.lastCommand (text :: rest) = command :: commandsFrom (some command) rest := by
  simp only [command?, hp] at hcommand
  rw [commandsFrom]
  split_ifs at hcommand ⊢ with hblank
  · rw [hcommand]
    rfl
  · rw [Option.some.inj hcommand]

theorem commandsFrom_of_skip (hp : p.input = .typed editor) {text : String}
    (hcommand : p.command? text = none) (rest : List String) :
    commandsFrom p.lastCommand (text :: rest) = commandsFrom p.lastCommand rest := by
  simp only [command?, hp] at hcommand
  rw [commandsFrom]
  split_ifs at hcommand ⊢ with hblank
  rw [hcommand]
  rfl

/-- A prompt with a list of commands that follows one to which lines are typed in: it has to take
the commands that the other's lines stand for. -/
structure Follows (editor : LineEditor) (p q : Prompt) : Prop where
  typed : p.input = .typed editor
  listed : q.input = .list
  /-- What they still have to take. -/
  pending : ∃ delivered, Delivers editor p.pending delivered ∧
    q.pending = commandsFrom p.lastCommand delivered

theorem taking_input (p : Prompt) (rest : List String) (command : String)
    (answer : Except CommandError Reply) : (p.taking rest command answer).input = p.input := by
  obtain ⟨input, pending, lastCommand, notices⟩ := p
  cases input <;> rfl

theorem taking_pending (p : Prompt) (rest : List String) (command : String)
    (answer : Except CommandError Reply) : (p.taking rest command answer).pending = rest := by
  obtain ⟨input, pending, lastCommand, notices⟩ := p
  cases input <;> rfl

/-- The two carry out the same commands at a pause, and leave it in the same way. -/
theorem converse_follows {lines delivered : List String}
    (hdelivers : Delivers editor lines delivered) (hp : p.input = .typed editor)
    (hq : q.input = .list) (hpending : p.pending = lines)
    (hpending' : q.pending = commandsFrom p.lastCommand delivered) (hs : s.Alike s')
    (h : s.resumption = none) :
    SameOutcome (Follows editor) ((p.converse lines).run s)
        ((q.converse (commandsFrom p.lastCommand delivered)).run s') ∧
      (p.converse lines).commands s =
        (q.converse (commandsFrom p.lastCommand delivered)).commands s' := by
  have h' : s'.resumption = none := hs.resumption_eq.trans h
  induction hdelivers generalizing p q s s' with
  | nil =>
    rw [commandsFrom] at hpending' ⊢
    rw [converse_nil, converse_nil, Dialogue.run_resume h, Dialogue.run_resume h',
      Dialogue.commands_resume, Dialogue.commands_resume]
    obtain ⟨notices, hfinishing⟩ := p.finishing_eq
    obtain ⟨notices', hfinishing'⟩ := q.finishing_eq
    have hfollows : Follows editor p.finishing q.finishing := by
      rw [hfinishing, hfinishing']
      refine ⟨hp, hq, [], ?_, hpending'⟩
      rw [hpending]
      exact .nil
    exact ⟨⟨rfl, hfollows, (hs.release .continue).2⟩, rfl⟩
  | @cons line text lines delivered hline hdelivers ih =>
    have hdeliver : p.deliver line = .text text := by rw [deliver, hp]; exact hline
    cases hcommand : p.command? text with
    | none =>
      -- The line is passed over, and stands for nothing.
      rw [commandsFrom_of_skip hp hcommand] at hpending' ⊢
      rw [converse_skip hdeliver hcommand]
      obtain ⟨notices, hawait⟩ := p.await_eq
      rw [hawait]
      exact ih (p := { p with pending := lines, notices }) hp hq rfl hpending' hs h h'
    | some command =>
      -- Both carry out the command that the line stands for.
      rw [commandsFrom_of_command hp hcommand] at hpending' ⊢
      have hdeliver' : q.deliver command = .text command := by rw [deliver, hq]
      have hcommand' : q.command? command = some command := by rw [command?, hq]
      obtain ⟨answer, s₁, hs₁, hrun, hcommands⟩ := run_converse_cons h hdeliver hcommand lines
      obtain ⟨answer', s₁', hs₁', hrun', hcommands'⟩ :=
        run_converse_cons h' hdeliver' hcommand' (commandsFrom (some command) delivered)
      have halike : s₁.Alike s₁' := hs₁.symm.trans ((hs.execute command).2.trans hs₁')
      have hp₁ := (p.taking_input lines command answer).trans hp
      have hq₁ := (q.taking_input (commandsFrom (some command) delivered) command answer').trans hq
      have hlines := p.taking_pending lines command answer
      have hrest := q.taking_pending (commandsFrom (some command) delivered) command answer'
      rw [hrun, hrun', hcommands, hcommands', Session.isReleased, Session.isReleased,
        halike.resumption_eq]
      cases hresumption : s₁.resumption with
      | some resume =>
        have hfollows : Follows editor (p.taking lines command answer)
            (q.taking (commandsFrom (some command) delivered) command answer') :=
          ⟨hp₁, hq₁, delivered, hlines.symm ▸ hdelivers, hrest⟩
        exact ⟨⟨rfl, hfollows, halike⟩, rfl⟩
      | none =>
        obtain ⟨houtcome, htexts⟩ := ih hp₁ hq₁ hlines hrest halike hresumption
          (halike.resumption_eq.trans hresumption)
        exact ⟨houtcome, congrArg (command :: ·) htexts⟩

/-- At a pause the two carry out the same commands, and leave it in the same way. -/
theorem onPause_follows (hfollows : Follows editor p q) (hs : s.Alike s')
    (h : s.resumption = none) :
    SameOutcome (Follows editor) (p.onPause.run s) (q.onPause.run s') ∧
      p.onPause.commands s = q.onPause.commands s' := by
  obtain ⟨hrun, hcommands⟩ := onPause_spec h p
  obtain ⟨hrun', hcommands'⟩ := onPause_spec (hs.resumption_eq.trans h) q
  obtain ⟨htyped, hlisted, delivered, hdelivers, hpending⟩ := hfollows
  rw [hrun, hrun', hcommands, hcommands', hpending]
  exact converse_follows hdelivers htyped hlisted rfl hpending hs h

theorem agree_follows : Handler.Agree (Follows editor) Handler.prompt Handler.prompt :=
  fun _ _ _ _ hfollows hs h => (onPause_follows hfollows hs h).1

/-! ### After the last line -/

/-- A prompt that has no lines left continues at a pause, and has nothing carried out. -/
theorem onPause_of_no_lines (hlines : p.pending = []) (h : s.resumption = none) :
    p.onPause.commands s = [] ∧
      p.onPause.run s = ((.returned, (p.announce (.paused s.position s.line s.reason
        s.currentText)).finishing), (s.release .continue).2) := by
  obtain ⟨hrun, hcommands⟩ := onPause_spec h p
  rw [hrun, hcommands, hlines, converse_nil, Dialogue.run_resume h, Dialogue.commands_resume]
  exact ⟨rfl, rfl⟩

end Prompt

namespace Interpreter

variable {ω : Type} [BreakpointOracle ω] {i : Interpreter} {r : Run ω Prompt}

theorem nextCall?_of_no_lines {c : HandlerCall Prompt} (hlines : r.handler.pending = [])
    (hc : i.nextCall? Handler.prompt r = some c) :
    c.commands = [] ∧ c.how = .returned ∧ c.release? = some .continue ∧ c.state.pending = [] := by
  have hsuspended := nextCall?_suspended hc
  obtain ⟨hcommands, hrun⟩ := Prompt.onPause_of_no_lines hlines hsuspended
  have hdialogue : c.dialogue = r.handler.onPause := nextCall?_dialogue hc
  rw [← hdialogue] at hcommands hrun
  refine ⟨hcommands, ?_, ?_, ?_⟩
  · rw [HandlerCall.how, hrun]
  · rw [← HandlerCall.closed_resumption hsuspended, HandlerCall.closed, hrun,
      Session.release_of_suspended hsuspended]
    rfl
  · obtain ⟨notices, hfinishing⟩ := Prompt.finishing_eq (r.handler.announce
      (.paused c.session.position c.session.line c.session.reason c.session.currentText))
    rw [HandlerCall.state, hrun, hfinishing]
    exact hlines

/-- There is nothing left to be typed in after the last line. -/
theorem no_lines_of_stateAt? {j k : Nat} {rj rk : Run ω Prompt} (hjk : j ≤ k)
    (hj : i.stateAt? Handler.prompt r j = some rj) (hlines : rj.handler.pending = [])
    (hk : i.stateAt? Handler.prompt r k = some rk) : rk.handler.pending = [] := by
  induction k, hjk using Nat.le_induction generalizing rk with
  | base => exact Option.some.inj (hj.symm.trans hk) ▸ hlines
  | succ k hjk ih =>
    obtain ⟨rk', hk', hstep⟩ := stateAt?_succ_eq_some_iff.mp hk
    have hhandler := step_handler i Handler.prompt rk'
    rw [hstep, afterPause_handler] at hhandler
    cases hc : i.nextCall? Handler.prompt rk' with
    | none => rw [hhandler, hc]; exact ih hk'
    | some c => rw [hhandler, hc]; exact (nextCall?_of_no_lines (ih hk') hc).2.2.2

end Interpreter

namespace Debugger

/-- **Lines that are typed in lead to the run of the commands that they stand for.**  It stands at
the same point before each instruction, pauses before the same instructions and has the same
commands carried out there, and ends in the same way after as many steps, with the same call,
breakpoints and number of pauses at each line.  Once there are no lines left it continues at every
pause. -/
theorem typed_refines_list (d : Debugger) (editor : LineEditor) {lines delivered : List String}
    (h : Prompt.Delivers editor lines delivered) (frame : Frame) (journal : Journal) :
    let typed := Prompt.ofLines editor lines
    let listed := Prompt.ofCommands (Prompt.commandsFrom none delivered)
    let start := d.start frame typed journal
    let start' := d.start frame listed journal
    (∀ k, Option.Rel (Run.Alike (Prompt.Follows editor))
      (d.interpreter.stateAt? Handler.prompt start k)
      (d.interpreter.stateAt? Handler.prompt start' k)) ∧
    (∀ k, Option.Rel (fun c c' => c.session.Alike c'.session ∧ c.commands = c'.commands)
      (d.interpreter.callAt? Handler.prompt start k)
      (d.interpreter.callAt? Handler.prompt start' k)) ∧
    (∀ n, Option.Rel (RunResult.Alike (Prompt.Follows editor))
      (d.run Handler.prompt n typed frame journal)
      (d.run Handler.prompt n listed frame journal)) ∧
    ∀ j k rj c, j ≤ k → d.interpreter.stateAt? Handler.prompt start j = some rj →
      rj.handler.pending = [] → d.interpreter.callAt? Handler.prompt start k = some c →
      c.commands = [] ∧ c.how = .returned ∧ c.release? = some .continue := by
  intro typed listed start start'
  have hfollows : Prompt.Follows editor typed listed := ⟨rfl, rfl, delivered, h, rfl⟩
  obtain ⟨hstates, hruns⟩ := d.run_alike Prompt.agree_follows hfollows frame journal
  refine ⟨hstates, fun k => ?_, hruns, ?_⟩
  · have hcalls := d.interpreter.callAt?_alike Prompt.agree_follows
      (d.start_alike hfollows frame journal) k
    refine hcalls.imp fun c c' hpause => ⟨hpause.session, ?_⟩
    obtain ⟨hsession, hsuspended, p, q, hpq, hdialogue, hdialogue'⟩ := hpause
    rw [HandlerCall.commands, HandlerCall.commands, hdialogue, hdialogue']
    exact (Prompt.onPause_follows hpq hsession hsuspended).2
  · intro j k rj c hjk hj hlines hc
    obtain ⟨rk, hk, hcall⟩ := Interpreter.callAt?_eq_some_iff.mp hc
    have hlines' := Interpreter.no_lines_of_stateAt? hjk hj hlines hk
    obtain ⟨hcommands, hhow, hrelease, -⟩ := Interpreter.nextCall?_of_no_lines hlines' hcall
    exact ⟨hcommands, hhow, hrelease⟩

/-- A blank line repeats a text that is no command as well, and at the next pause the step. -/
theorem typed_refines_list_sum :
    let d := ofLineMap sumMap
    let lines := [" ", "bogus", "", "s", "\t"]
    let start := d.start sumFrame (Prompt.ofLines .erasing lines) {}
    Prompt.Delivers .erasing lines lines ∧
      (∃ c, d.interpreter.callAt? Handler.prompt start 2 = some c ∧
        c.commands = ["bogus", "bogus", "s"]) ∧
      ∃ c, d.interpreter.callAt? Handler.prompt start 3 = some c ∧ c.commands = ["s"] := by
  intro d lines start
  have hdelivers : Prompt.Delivers .erasing lines lines :=
    Prompt.delivers_self (by decide +kernel)
  have hmeant : Prompt.commandsFrom none lines = ["bogus", "bogus", "s", "s"] := by decide +kernel
  obtain ⟨-, hcalls, -⟩ := typed_refines_list d .erasing hdelivers sumFrame {}
  rw [hmeant] at hcalls
  let start' := d.start sumFrame (Prompt.ofCommands ["bogus", "bogus", "s", "s"]) {}
  have hadd : (d.interpreter.callAt? Handler.prompt start' 2).map HandlerCall.commands =
      some ["bogus", "bogus", "s"] := by decide +kernel
  have hstop : (d.interpreter.callAt? Handler.prompt start' 3).map HandlerCall.commands =
      some ["s"] := by decide +kernel
  obtain ⟨c₂', hc₂', hcommands₂⟩ := Option.map_eq_some_iff.mp hadd
  obtain ⟨c₃', hc₃', hcommands₃⟩ := Option.map_eq_some_iff.mp hstop
  obtain ⟨c₂, hc₂, -, htexts₂⟩ := (hcalls 2).exists_left hc₂'
  obtain ⟨c₃, hc₃, -, htexts₃⟩ := (hcalls 3).exists_left hc₃'
  exact ⟨hdelivers, ⟨c₂, hc₂, htexts₂.trans hcommands₂⟩, ⟨c₃, hc₃, htexts₃.trans hcommands₃⟩⟩

end Debugger

end BytecodeDebugger
