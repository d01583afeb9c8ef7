import BytecodeDebugger.Proofs.Debugger.Operation
import BytecodeDebugger.Proofs.Handler.Script
import BytecodeDebugger.Proofs.Run.Resumption
import Mathlib.Data.List.Forall2

/-!
# What a script records

A script keeps its commands in a queue, and its pauses and its transcript in two lists beside it.
Whatever is run with it, no command is lost, and the transcript is cut into one segment for each
pause (`Script.Ledger`): a segment ends where a command ended the pause, and if none did then the
script had no more commands.

`Script.run_converse` is what is recorded of one pause, `Script.Ledger.pause` adds it to what was
recorded before, and `Script.ledger_of_uses` follows a script through any runs.
-/

namespace BytecodeDebugger

/-- How a command that was recorded ended the pause, if it did. -/
def ScriptEntry.resumed? (e : ScriptEntry) : Option Resume :=
  e.outcome.toOption.bind Reply.release?

/-- The entry has an error exactly if its text is no command. -/
def ScriptEntry.Faithful (e : ScriptEntry) : Prop :=
  ∀ error, e.outcome = .error error ↔ Command.parse e.command = .error error

namespace Script

variable {s : Session}

/-! ### One pause -/

/-- How the last of some entries ended the pause, if it did. -/
def endedBy? (segment : List ScriptEntry) : Option Resume :=
  segment.getLast?.bind ScriptEntry.resumed?

theorem endedBy?_cons {e : ScriptEntry} (h : e.resumed? = none) (entries : List ScriptEntry) :
    endedBy? (e :: entries) = endedBy? entries := by
  cases entries with
  | nil => exact h
  | cons e' entries => rw [endedBy?, List.getLast?_cons_cons, endedBy?]

/-- What is recorded of a pause: all entries have its position, and none but the last one may have
ended it. -/
structure Segment (position : Nat) (segment : List ScriptEntry) : Prop where
  position_eq : ∀ e ∈ segment, e.position = position
  resumed?_eq : ∀ e ∈ segment.dropLast, e.resumed? = none
  faithful : ∀ e ∈ segment, e.Faithful

theorem Segment.nil (position : Nat) : Segment position [] :=
  ⟨by simp, by simp, by simp⟩

theorem Segment.singleton {e : ScriptEntry} (h : e.Faithful) : Segment e.position [e] :=
  ⟨by simp, by simp, by simpa using h⟩

theorem Segment.cons {e : ScriptEntry} {entries : List ScriptEntry} (h : e.Faithful)
    (hresumed : e.resumed? = none) (hentries : Segment e.position entries) :
    Segment e.position (e :: entries) := by
  have hposition : ∀ e' ∈ e :: entries, e'.position = e.position := by
    simpa using hentries.position_eq
  have hfaithful : ∀ e' ∈ e :: entries, e'.Faithful := by
    simpa using ⟨h, hentries.faithful⟩
  refine ⟨hposition, fun e' he' => ?_, hfaithful⟩
  cases entries with
  | nil => cases he'
  | cons e₁ entries =>
    rw [List.dropLast_cons_cons, List.mem_cons] at he'
    rcases he' with rfl | he'
    · exact hresumed
    · exact hentries.resumed?_eq e' he'

/-- **What a script records of a pause**, and how it leaves it: in the way of the last command, or
with nothing more to do. -/
theorem run_converse (h : s.resumption = none) (position : Nat) (script : Script)
    (commands : List String) :
    ∃ segment rest s', (script.converse position commands).run s =
        ((.returned, { script with
          pending := rest, transcript := script.transcript ++ segment }), s') ∧
      commands = segment.map ScriptEntry.command ++ rest ∧ Segment position segment ∧
      s'.resumption = some ((endedBy? segment).getD .continue) ∧
      (endedBy? segment = none → rest = []) := by
  -- The induction follows `converse`: a command is recorded, and the rest is talked through if it
  -- has not ended the pause.
  induction commands generalizing script s with
  | nil =>
    refine ⟨[], [], (s.release .continue).2, ?_, rfl, .nil position, ?_, fun _ => rfl⟩
    · rw [converse, Dialogue.run_resume h, List.append_nil]
    · rw [Session.release_of_suspended h]
      rfl
  | cons command rest ih =>
    obtain ⟨outcome, s₁, hfaithful, hresumed, -, hrun⟩ :=
      run_converse_command h position script command rest
    let e : ScriptEntry := { position, command, outcome }
    have he : e.Faithful := hfaithful
    cases hs₁ : s₁.resumption with
    | some resume =>
      -- The command has ended the pause, and what is behind it stays in the queue.
      have hresumed : e.resumed? = some resume := hresumed.trans hs₁
      refine ⟨[e], rest, s₁, ?_, rfl, .singleton he, ?_, fun hnone => ?_⟩
      · rw [hrun, Session.isReleased, hs₁]
        rfl
      · rw [hs₁]
        exact congrArg (fun ended => some (Option.getD ended .continue)) hresumed.symm
      · cases hresumed.symm.trans hnone
    | none =>
      have hresumed : e.resumed? = none := hresumed.trans hs₁
      obtain ⟨segment, rest', s', hrest, hcommands, hsegment, hs', hnone⟩ :=
        ih hs₁ ({ script with pending := rest }.addEntry e)
      refine ⟨e :: segment, rest', s', ?_, ?_, .cons he hresumed hsegment, ?_, ?_⟩
      · rw [hrun, Session.isReleased, hs₁]
        show (converse position ({ script with pending := rest }.addEntry e) rest).run s₁ = _
        rw [hrest, addEntry, List.append_assoc]
        rfl
      · rw [List.map_cons, List.cons_append, ← hcommands]
      · rw [endedBy?_cons hresumed]
        exact hs'
      · rw [endedBy?_cons hresumed]
        exact hnone

/-! ### One pause after another -/

/-- What a script is to record of a pause with the given session. -/
def pauseOf (s : Session) : PauseRecord :=
  ⟨s.position, s.line, s.reason, s.machine.stack.fromBottom⟩

/-- A segment is what a call of the script has recorded, and tells how it left the pause. -/
structure RecordOf (c : HandlerCall Script) (segment : List ScriptEntry) : Prop where
  entries : Segment c.session.position segment
  how : c.how = .returned
  resumption : c.closed.resumption = some ((endedBy? segment).getD .continue)

/-- The books of a script that had the given commands at first and was called in the given
pauses. -/
structure Ledger (commands : List String) (calls : List (HandlerCall Script)) (script : Script) :
    Prop where
  /-- No command is lost, carried out twice or taken out of turn. -/
  commands_eq : script.transcript.map ScriptEntry.command ++ script.pending = commands
  /-- Every pause is recorded, and nothing else is recorded as a pause. -/
  pauses_eq : script.pauses = calls.map fun c => pauseOf c.session
  /-- There is a segment of the transcript for every pause.  After one in which no command ended the
  pause there are no more commands. -/
  segments : ∃ segments, script.transcript = segments.flatten ∧
    List.Forall₂ RecordOf calls segments ∧
    ∀ before segment after, segments = before ++ segment :: after → endedBy? segment = none →
      script.pending = [] ∧ ∀ later ∈ after, later = []

theorem Ledger.start (commands : List String) : Ledger commands [] (ofCommands commands) := by
  refine ⟨rfl, rfl, [], rfl, .nil, ?_⟩
  intro before segment after h
  cases before <;> cases h

/-- **A pause is entered into the books.** -/
theorem Ledger.pause {commands : List String} {calls : List (HandlerCall Script)} {script : Script}
    (hledger : Ledger commands calls script) {c : HandlerCall Script}
    (hc : c.dialogue = Handler.script.onPause script) (h : c.session.resumption = none) :
    Ledger commands (calls ++ [c]) c.state := by
  obtain ⟨segment, rest, s', hrun, hcommands, hsegment, hs', hrest⟩ :=
    run_converse h c.session.position (script.addPause (pauseOf c.session)) script.pending
  have hdialogue : c.dialogue.run c.session = ((.returned, { script with
      pending := rest
      pauses := script.pauses ++ [pauseOf c.session]
      transcript := script.transcript ++ segment }), s') := by
    rw [hc]
    exact (run_onPause h script).trans hrun
  have hhow : c.how = .returned := by rw [HandlerCall.how, hdialogue]
  have hclosed : c.closed = s' := by rw [HandlerCall.closed, hdialogue]
  rw [HandlerCall.state, hdialogue]
  obtain ⟨segments, htranscript, hrecords, hended⟩ := hledger.segments
  refine ⟨?_, ?_, segments ++ [segment], ?_, ?_, ?_⟩
  · rw [List.map_append, List.append_assoc, ← hcommands]
    exact hledger.commands_eq
  · rw [List.map_append, ← hledger.pauses_eq]
    rfl
  · rw [List.flatten_append, ← htranscript, List.flatten_singleton]
  · refine List.rel_append hrecords (.cons ⟨hsegment, hhow, ?_⟩ .nil)
    rw [hclosed]
    exact hs'
  · intro before unended after hsegments hunended
    rcases List.eq_nil_or_concat after with rfl | ⟨after', last, rfl⟩
    · -- The segment is the new one.
      obtain ⟨-, hlast⟩ := List.append_inj' hsegments rfl
      obtain rfl := List.singleton_inj.mp hlast
      exact ⟨hrest hunended, by simp⟩
    · -- There were no commands any more before the new segment.
      have hinner : segments ++ [segment] = (before ++ unended :: after') ++ [last] := by
        rw [hsegments]
        simp
      obtain ⟨hbefore, hlast⟩ := List.append_inj' hinner rfl
      obtain rfl := List.singleton_inj.mp hlast
      obtain ⟨hpending, hempty⟩ := hended before unended after' hbefore hunended
      rw [hpending] at hcommands
      obtain ⟨hmap, rfl⟩ := List.append_eq_nil_iff.mp hcommands.symm
      refine ⟨rfl, fun later hlater => ?_⟩
      rcases List.mem_append.mp (List.concat_eq_append ▸ hlater) with hlater | hlater
      · exact hempty later hlater
      · rw [List.mem_singleton.mp hlater]
        exact List.map_eq_nil_iff.mp hmap

/-! ### One run after another -/

/-- A call that a script is used for, with the debugger that runs it. -/
structure Use where
  debugger : Debugger
  frame : Frame
  journal : Journal := {}
  /-- The greatest number of steps. -/
  steps : Nat

/-- The start of the run. -/
def Use.start (use : Use) (script : Script) : Run LineBreakpoints Script :=
  use.debugger.start use.frame script use.journal

/-- The calls of the script before each of the first `k` instructions of the run, in order. -/
def Use.calls (use : Use) (script : Script) (k : Nat) : List (HandlerCall Script) :=
  use.debugger.interpreter.gather Handler.script (use.start script)
    (fun rk => (use.debugger.interpreter.nextCall? Handler.script rk).toList) k

/-- The script after the run, if the run comes to its end. -/
def afterUse? (script : Script) (use : Use) : Option Script :=
  (use.debugger.run Handler.script use.steps script use.frame use.journal).map RunResult.handler

/-- The script after some runs, one after another. -/
def afterUses? (script : Script) : List Use → Option Script
  | [] => some script
  | use :: uses => (script.afterUse? use).bind fun script => script.afterUses? uses

/-- The calls of the script in some runs, one after another. -/
def callsIn (script : Script) : List Use → List (HandlerCall Script)
  | [] => []
  | use :: uses => use.calls script use.steps ++
    ((script.afterUse? use).map fun script => script.callsIn uses).getD []

variable {commands : List String} {calls : List (HandlerCall Script)} {script : Script}

/-- The books are kept all along a run. -/
theorem Ledger.use (hledger : Ledger commands calls script) (use : Use) :
    (∀ k rk, use.debugger.interpreter.stateAt? Handler.script (use.start script) k = some rk →
      Ledger commands (calls ++ use.calls script k) rk.handler) ∧
    ∀ script', script.afterUse? use = some script' →
      Ledger commands (calls ++ use.calls script use.steps) script' := by
  let i := use.debugger.interpreter
  have hpause (k : Nat) (rk : Run LineBreakpoints Script) (gathered : List (HandlerCall Script))
      (_ : i.stateAt? Handler.script (use.start script) k = some rk)
      (hk : Ledger commands (calls ++ gathered) rk.handler) :
      Ledger commands (calls ++ (gathered ++ (i.nextCall? Handler.script rk).toList))
        (i.afterPause Handler.script rk).handler := by
    rw [Interpreter.afterPause_handler]
    cases hc : i.nextCall? Handler.script rk with
    | none =>
      rw [Option.toList_none, List.append_nil]
      exact hk
    | some c =>
      rw [Option.toList_some, ← List.append_assoc]
      exact hk.pause (Interpreter.nextCall?_dialogue hc) (Interpreter.nextCall?_suspended hc)
  -- An instruction leaves the script alone, so only the pauses are to be followed.
  obtain ⟨hbefore, hend⟩ := i.pause_induction Handler.script (use.start script)
    (fun rk => (i.nextCall? Handler.script rk).toList)
    (P := fun gathered carried => Ledger commands (calls ++ gathered) carried.2.1)
    (by rw [List.append_nil]; exact hledger) hpause
  refine ⟨hbefore, fun script' hscript' => ?_⟩
  rw [afterUse?, Debugger.run_eq, Option.map_map] at hscript'
  obtain ⟨⟨ending, r'⟩, hrun, rfl⟩ := Option.map_eq_some_iff.mp hscript'
  exact hend use.steps ending r' hrun

theorem Ledger.uses (hledger : Ledger commands calls script) {uses : List Use} {script' : Script}
    (h : script.afterUses? uses = some script') :
    Ledger commands (calls ++ script.callsIn uses) script' := by
  -- `calls` is general, since the books of a run are opened with the calls of all earlier ones.
  induction uses generalizing calls script with
  | nil =>
    obtain rfl := Option.some.inj h
    rw [callsIn, List.append_nil]
    exact hledger
  | cons use uses ih =>
    obtain ⟨script₁, huse, huses⟩ := Option.bind_eq_some_iff.mp h
    rw [callsIn, huse, Option.map_some, Option.getD_some, ← List.append_assoc]
    exact ih ((hledger.use use).2 script₁ huse) huses

/-- **No command is lost, carried out twice or taken out of turn**, whatever is run with a script.
After any runs, and before each instruction of another one, the commands that it has recorded and
those that it has left are those that it had at first.  Its transcript has a segment for each of its
pauses, in order: all entries of the segment have the position of the pause, none but the last may
have ended it, and if that has not either then the run went on, and there were no more commands from
then on.  An entry has an error exactly if its text is no command. -/
theorem ledger_of_uses (commands : List String) (uses : List Use) {script : Script}
    (h : (ofCommands commands).afterUses? uses = some script) :
    let calls := (ofCommands commands).callsIn uses
    Ledger commands calls script ∧
    ∀ (use : Use) k rk,
      use.debugger.interpreter.stateAt? Handler.script (use.start script) k = some rk →
      Ledger commands (calls ++ use.calls script k) rk.handler := by
  intro calls
  have hledger : Ledger commands calls script := (Ledger.start commands).uses h
  exact ⟨hledger, fun use k rk hk => (hledger.use use).1 k rk hk⟩

/-- Two runs of the sum, with a text that is no command.  The first run pauses before the addition
and, after the step, before the end of the program, where the commands are used up.  The second run
pauses once more. -/
theorem ledger_of_uses_sum :
    let commands := ["frobnicate", "stack", "s", "pc"]
    let use : Use := { debugger := .ofLineMap sumMap, frame := sumFrame, steps := 4 }
    ∃ script, (ofCommands commands).afterUses? [use, use] = some script ∧
      script.pauses.map PauseRecord.position = [4, 5, 4] ∧
      script.transcript.map ScriptEntry.command = commands ∧
      ∃ segments : List (List ScriptEntry), script.transcript = segments.flatten ∧
        segments.length = 3 := by
  intro commands use
  have hends : ((ofCommands commands).afterUses? [use, use]).map (fun script =>
      (script.pauses.map PauseRecord.position, script.pending)) = some ([4, 5, 4], []) := by
    decide +kernel
  obtain ⟨script, hscript, hends⟩ := Option.map_eq_some_iff.mp hends
  obtain ⟨hpauses, hpending⟩ := Prod.mk.inj hends
  obtain ⟨⟨hcommands, hcalls, segments, htranscript, hrecords, -⟩, -⟩ :=
    ledger_of_uses commands [use, use] hscript
  refine ⟨script, hscript, hpauses, ?_, segments, htranscript, ?_⟩
  · rw [hpending, List.append_nil] at hcommands
    exact hcommands
  · rw [← hrecords.length_eq, ← List.length_map (f := fun c => pauseOf c.session), ← hcalls,
      ← List.length_map (f := PauseRecord.position), hpauses]
    rfl

end Script

end BytecodeDebugger
