import BytecodeDebugger.CommandLine.Basic
import BytecodeDebugger.Proofs.Handler.Release

/-!
# What makes the program fail

A run that comes to its end and a run whose machine fails are both reported, and the program
succeeds (`CommandLine.conclude_of_ending`).  As all handlers end every pause there is no other run,
and the program fails for an input that cannot be used and for nothing else
(`CommandLine.fails_for_inputs_only`).  Of the line editor nothing is assumed but that it does not
fail or break off itself.
-/

namespace BytecodeDebugger.CommandLine

/-- A run that ends with an instruction is reported, whether or not it came to its end. -/
theorem conclude_of_ending {ending : Ending}
    (h : ending = .completed ∨ ∃ fault, ending = .failed (.machine fault)) (frame : Frame) :
    (conclude ending frame).errors = "" ∧ (conclude ending frame).exitCode = 0 := by
  rcases h with rfl | ⟨fault, rfl⟩
  · exact ⟨rfl, rfl⟩
  · exact ⟨rfl, rfl⟩

variable {editor : LineEditor} {arguments : List String} {files : Files} {typed : String}
  {steps : Nat} {run : RunArguments} {printed : List String}

/-- An input that cannot be used is what the program fails for. -/
theorem execute_of_error {error : InputError}
    (hrun : Invocation.ofArguments? arguments = some (.run run))
    (hload : (loadSetup files run).run [] = (.error error, printed)) :
    execute editor arguments files typed steps =
      some (failure (printLines printed.reverse) error.message) := by
  have hprepare : prepare files (Invocation.ofArguments? arguments) =
      .over (failure (printLines printed.reverse) error.message) := by
    rw [hrun, prepare, hload]
  rw [execute, hprepare]

theorem prepare_of_ok {setup : Setup}
    (hrun : Invocation.ofArguments? arguments = some (.run run))
    (hload : (loadSetup files run).run [] = (.ok setup, printed)) :
    prepare files (Invocation.ofArguments? arguments) =
      .ready setup (printLines printed.reverse) := by
  rw [hrun, prepare, hload]

/-- The editor has nothing to read if the commands come from a list. -/
theorem ready_promptOf {commands : Option (List String)} {lines : List String}
    (h : commands = none → editor.Reads lines) :
    (promptOf editor commands lines).Ready (promptOf editor commands lines).pending.length := by
  cases commands with
  | some commands => exact ⟨nofun, le_rfl⟩
  | none =>
    refine ⟨fun editor' heditor => ?_, le_rfl⟩
    obtain rfl : editor = editor' := PromptInput.typed.inj heditor
    exact h rfl

/-- Once its inputs are loaded the program does not fail, whatever is run. -/
theorem execute_of_ok {setup : Setup} {outcome : Outcome}
    (hrun : Invocation.ofArguments? arguments = some (.run run))
    (hload : (loadSetup files run).run [] = (.ok setup, printed))
    (hreads : setup.commands = none → editor.Reads (Text.lines typed))
    (h : execute editor arguments files typed steps = some outcome) :
    outcome.errors = "" ∧ outcome.exitCode = 0 := by
  rw [execute, prepare_of_ok hrun hload] at h
  obtain ⟨result, hresult, houtcome⟩ := Option.bind_eq_some_iff.mp h
  obtain rfl := Option.some.inj houtcome
  have hends := Debugger.endsEveryPause_of_releases (Handler.prompt_releases _) setup.debugger
    (ready_promptOf hreads) setup.frame {}
  exact conclude_of_ending (hends.ending steps result hresult) result.frame

/-- **The program fails for its inputs only.**  The handler that always continues, a script, and a
prompt end every pause once, and a run of them comes to its end or its machine fails.  So it is with
lines that are typed in too, whatever texts the line editor makes of them, as long as it does not
fail or break off itself.  The program fails if an input cannot be used, and then for that, but not
for what is run or for the commands. -/
theorem fails_for_inputs_only :
    (∀ (d : Debugger) (pauses : Nat) (frame : Frame) (journal : Journal),
      d.EndsEveryPause Handler.continueAlways pauses frame journal 1) ∧
    (∀ (d : Debugger) (script : Script) (frame : Frame) (journal : Journal),
      d.EndsEveryPause Handler.script script frame journal (2 * script.pending.length + 5)) ∧
    (∀ (d : Debugger) (p : Prompt) (frame : Frame) (journal : Journal),
      (∀ editor, p.input = .typed editor → editor.Reads p.pending) →
      d.EndsEveryPause Handler.prompt p frame journal (2 * p.pending.length + 5)) ∧
    ∀ (editor : LineEditor) (arguments : List String) (files : Files) (typed : String)
      (steps : Nat) (run : RunArguments), Invocation.ofArguments? arguments = some (.run run) →
      (∀ error printed, (loadSetup files run).run [] = (.error error, printed) →
        execute editor arguments files typed steps =
          some (failure (printLines printed.reverse) error.message)) ∧
      ∀ setup printed outcome, (loadSetup files run).run [] = (.ok setup, printed) →
        (setup.commands = none → editor.Reads (Text.lines typed)) →
        execute editor arguments files typed steps = some outcome →
        outcome.errors = "" ∧ outcome.exitCode = 0 := by
  refine ⟨?_, ?_, ?_, ?_⟩
  · intro d pauses frame journal
    exact Debugger.endsEveryPause_of_releases Handler.continueAlways_releases d trivial frame
      journal
  · intro d script frame journal
    exact Debugger.endsEveryPause_of_releases (Handler.script_releases script.pending.length) d
      le_rfl frame journal
  · intro d p frame journal hreads
    exact Debugger.endsEveryPause_of_releases (Handler.prompt_releases p.pending.length) d
      ⟨hreads, le_rfl⟩ frame journal
  · intro editor arguments files typed steps run hrun
    exact ⟨fun error printed hload => execute_of_error hrun hload,
      fun setup printed outcome hload hreads h => execute_of_ok hrun hload hreads h⟩

/-- A program that fails at its first instruction, after a pause with a text that is no command and
a line of which a backspace leaves nothing but a blank one. -/
theorem fails_for_inputs_only_invalid :
    let arguments := ["run", "--code", "fe", "-m", "map.json"]
    let files := [("map.json", "\x7b\"pc_pos_map\":\x7b\"0\":[1]\x7d,\"breakpoints\":[1]\x7d")]
    ∃ outcome, execute .erasing arguments files "bogus\ns\x08\nstack" 3 = some outcome ∧
      outcome.errors = "" ∧ outcome.exitCode = 0 := by
  intro arguments files
  obtain ⟨-, -, -, hprogram⟩ := fails_for_inputs_only
  let run : RunArguments := { code := .text "fe", lineMap := some "map.json" }
  have hrun : Invocation.ofArguments? arguments = some (.run run) := by decide +kernel
  have hcommands : ((loadSetup files run).run []).1.toOption.map (·.commands) = some none := by
    decide +kernel
  have hreads : LineEditor.erasing.Reads (Text.lines "bogus\ns\x08\nstack") := by
    have herased : ∀ line ∈ Text.lines "bogus\ns\x08\nstack", (Text.erase? line).isSome := by
      decide +kernel
    intro line hline
    obtain ⟨text, htext⟩ := Option.isSome_iff_exists.mp (herased line hline)
    exact Or.inl ⟨text, by rw [LineEditor.erasing, htext]⟩
  have hends : (execute .erasing arguments files "bogus\ns\x08\nstack" 3).isSome := by
    decide +kernel
  obtain ⟨outcome, houtcome⟩ := Option.isSome_iff_exists.mp hends
  rcases hload : (loadSetup files run).run [] with ⟨error | setup, printed⟩
  · rw [hload] at hcommands
    cases hcommands
  · exact ⟨outcome, houtcome, (hprogram .erasing arguments files "bogus\ns\x08\nstack" 3 run
      hrun).2 setup printed outcome hload (fun _ => hreads) houtcome⟩

end BytecodeDebugger.CommandLine
