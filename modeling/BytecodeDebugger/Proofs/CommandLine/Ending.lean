import BytecodeDebugger.Proofs.CommandLine.Outcome
import BytecodeDebugger.Proofs.Run.Ending
import BytecodeDebugger.Proofs.Run.Pause

/-!
# The line about the end

Whatever is loaded is run with the usual table and from its beginning
(`CommandLine.loadSetup_yields`).  A run that comes to its end or fails is reported with the cursor,
and that is behind the last instruction which the run has fetched, and not where it stands
(`CommandLine.endingLine_shows_cursor`).
-/

namespace BytecodeDebugger.CommandLine

/-! ### What is loaded -/

/-- Whatever the work comes to has a property, if it comes to something. -/
def LoadM.Yields {α : Type} (x : LoadM α) (P : α → Prop) : Prop :=
  ∀ printed a printed', x.run printed = (.ok a, printed') → P a

namespace LoadM

variable {α β : Type} {P : α → Prop} {Q : β → Prop}

theorem yields_true (x : LoadM α) : x.Yields fun _ => True :=
  fun _ _ _ _ => trivial

theorem yields_pure {a : α} (h : P a) : (pure a : LoadM α).Yields P := by
  intro printed a' printed' hrun
  obtain ⟨ha, -⟩ := Prod.mk.inj hrun
  obtain rfl := Except.ok.inj ha
  exact h

theorem Yields.bind {x : LoadM α} {f : α → LoadM β} (hx : x.Yields P)
    (hf : ∀ a, P a → (f a).Yields Q) : (x >>= f).Yields Q := by
  intro printed b printed' hrun
  change ExceptT.bindCont f (x.run printed).1 (x.run printed).2 = _ at hrun
  rcases hxrun : x.run printed with ⟨error | a, printed₁⟩
  · rw [hxrun] at hrun
    cases hrun
  · rw [hxrun] at hrun
    exact hf a (hx printed a printed₁ hxrun) printed₁ b printed' hrun

/-- What comes after something of which nothing needs to be known. -/
theorem Yields.after {x : LoadM α} {f : α → LoadM β} (hf : ∀ a, (f a).Yields Q) :
    (x >>= f).Yields Q :=
  x.yields_true.bind fun a _ => hf a

theorem yields_foldlM {f : α → β → LoadM α} (hf : ∀ a b, P a → (f a b).Yields P) (l : List β)
    {a : α} (h : P a) : (l.foldlM f a).Yields P := by
  induction l generalizing a with
  | nil => exact yields_pure h
  | cons b l ih =>
    rw [List.foldlM_cons]
    exact (hf a b h).bind fun a' ha' => ih ha'

end LoadM

/-- A frame is loaded with its cursor at the beginning. -/
theorem loadFrame_yields (files : Files) (run : RunArguments) :
    (loadFrame files run).Yields fun frame => frame.machine.position = 0 := by
  rw [loadFrame]
  refine .after fun code => ?_
  cases run.callData with
  | some _ | none =>
    refine .after fun callData => ?_
    cases run.address with
    | some _ | none => exact .after fun address => LoadM.yields_pure rfl

/-- A debugger with the usual table. -/
def IsUsual (d : Debugger) : Prop :=
  d.interpreter.opcodes = .reference

theorem setBreakpoint_yields {d : Debugger} (hd : IsUsual d) (line : Nat) :
    (setBreakpoint d line).Yields IsUsual := by
  have hset : IsUsual (d.setBreakpoint line).2 := hd
  rw [setBreakpoint]
  show (if (d.setBreakpoint line).2.map.isReachable line = true then _ else _ :
    LoadM Debugger).Yields IsUsual
  split_ifs
  · exact LoadM.yields_pure hset
  · exact .after fun _ => LoadM.yields_pure hset

/-- A debugger is loaded with the usual table. -/
theorem loadDebugger_yields (files : Files) (run : RunArguments) :
    (loadDebugger files run).Yields IsUsual := by
  rw [loadDebugger]
  rcases run.lineMap with _ | path
  on_goal 2 => refine .after fun _ => .after fun _ => ?_
  all_goals
    refine .after fun map => ?_
    have hmap : (pure (Debugger.ofLineMap map) : LoadM Debugger).Yields IsUsual :=
      LoadM.yields_pure rfl
    have hsource (source : SourceText) :
        (pure ((Debugger.ofLineMap map).withSource source) : LoadM Debugger).Yields IsUsual :=
      LoadM.yields_pure rfl
    rcases run.source with _ | path'
    on_goal 1 => refine hmap.bind fun d hd => ?_
    on_goal 2 => refine .after fun text => .after fun _ => (hsource _).bind fun d hd => ?_
    all_goals
      refine (LoadM.yields_foldlM (fun _ line h => setBreakpoint_yields h line) _ hd).bind ?_
      intro d hd
      split_ifs
      · exact .after fun _ => LoadM.yields_pure hd
      · exact .after fun _ => .after fun _ => LoadM.yields_pure hd

/-- **Whatever is loaded** is run with the usual table and from its beginning. -/
theorem loadSetup_yields (files : Files) (run : RunArguments) :
    (loadSetup files run).Yields fun setup =>
      IsUsual setup.debugger ∧ setup.frame.machine.position = 0 := by
  rw [loadSetup]
  refine (loadFrame_yields files run).bind fun frame hframe => ?_
  refine (loadDebugger_yields files run).bind fun debugger hdebugger => ?_
  split_ifs
  · exact .after fun _ => .after fun _ => LoadM.yields_pure ⟨hdebugger, hframe⟩
  · exact LoadM.yields_pure ⟨hdebugger, hframe⟩

/-! ### What is printed -/

variable {editor : LineEditor} {arguments : List String} {files : Files} {typed : String}
  {steps : Nat} {run : RunArguments} {setup : Setup} {printed : List String}
  {result : RunResult Prompt} {line : String}

/-- The line about the end stands behind all that the prompt has printed. -/
theorem execute_of_line (hrun : Invocation.ofArguments? arguments = some (.run run))
    (hload : (loadSetup files run).run [] = (.ok setup, printed))
    (hresult : setup.debugger.run Handler.prompt steps
      (promptOf editor setup.commands (Text.lines typed)) setup.frame {} = some result)
    (hline : endingLine? result.ending result.frame = some line) :
    execute editor arguments files typed steps = some {
      output := printLines printed.reverse ++ result.handler.printed ++
        printLines ("" :: line :: frameLines result.frame) } := by
  have hconclude : conclude result.ending result.frame =
      { output := printLines ("" :: line :: frameLines result.frame) } := by
    simp only [conclude, hline]
  rw [execute, prepare_of_ok hrun hload]
  show (setup.debugger.run Handler.prompt steps _ setup.frame {}).bind _ = _
  rw [hresult, Option.bind_some, hconclude]
  rfl

/-- There is a line about the end if the run ended with an instruction, whether it came to its end
or failed. -/
theorem exists_of_endingLine? {ending : Ending} {frame : Frame}
    (h : endingLine? ending frame = some line) :
    (ending = .completed ∧
        line = "Execution halted at pc " ++ showPosition frame.machine.position) ∨
      ∃ fault, ending = .failed (.machine fault) ∧
        line = "Execution failed at pc " ++ showPosition frame.machine.position ++ ": " ++
          fault.message := by
  unfold endingLine? at h
  split at h
  · exact Or.inl ⟨rfl, (Option.some.inj h).symm⟩
  · exact Or.inr ⟨_, rfl, (Option.some.inj h).symm⟩
  · cases h

/-- **The line about the end shows the cursor**, which is behind the last instruction that was
fetched.  The listing, the pause before that instruction and the journal, whatever it keeps, all
have the position of the instruction itself.  The cursor is one place behind that, or behind the
immediate of a push that has found the stack full; beyond the end of the code it is in the same
place. -/
theorem endingLine_shows_cursor (hrun : Invocation.ofArguments? arguments = some (.run run))
    (hload : (loadSetup files run).run [] = (.ok setup, printed))
    (hprecompile : setup.frame.precompile? = none)
    (hsize : setup.frame.machine.code.size ≤ Bytes.maxSize) :
    let prompt := promptOf editor setup.commands (Text.lines typed)
    let size := setup.frame.machine.code.size
    (∀ steps result line,
      setup.debugger.run Handler.prompt steps prompt setup.frame {} = some result →
      endingLine? result.ending result.frame = some line →
      execute editor arguments files typed steps = some {
        output := printLines printed.reverse ++ result.handler.printed ++
          printLines ("" :: line :: frameLines result.frame) }) ∧
    ∀ journal steps result line,
      setup.debugger.run Handler.prompt steps prompt setup.frame journal = some result →
      endingLine? result.ending result.frame = some line →
      ∃ k f,
        setup.debugger.interpreter.IsLast Handler.prompt
          (setup.debugger.start setup.frame prompt journal) k f result.journal ∧
        (result.ending = .completed ∧
            line = "Execution halted at pc " ++ showPosition (f.behind size) ∨
          ∃ fault, result.ending = .failed (.machine fault) ∧
            line = "Execution failed at pc " ++ showPosition (f.behind size) ++ ": " ++
              fault.message) ∧
        ∀ index, Instruction.ofOpcode? f.opcode = some (.push index) →
          result.ending = .failed (.machine (.stackOverflow Stack.limit)) := by
  intro prompt size
  obtain ⟨husual, hstart⟩ := loadSetup_yields files run [] setup printed hload
  refine ⟨fun steps result line => execute_of_line hrun hload,
    fun journal steps result line hresult hline => ?_⟩
  rw [Debugger.run_eq] at hresult
  obtain ⟨⟨ending, r'⟩, hr', rfl⟩ := Option.map_eq_some_iff.mp hresult
  have hshown := exists_of_endingLine? hline
  -- Both ways to end are what some instruction came to.
  obtain ⟨came, hcame⟩ : ∃ came, Ending.ofResult? came = some ending := by
    rcases hshown with ⟨hending, -⟩ | ⟨fault, hending, -⟩
    · exact ⟨.ok .halt, congrArg some hending.symm⟩
    · exact ⟨.error fault, congrArg some hending.symm⟩
  obtain ⟨k, f, hlast, hposition, hpush⟩ :=
    Interpreter.exists_isLast husual hstart hsize hprecompile hr' hcame
  refine ⟨k, f, hlast, ?_, fun index hf => ?_⟩
  · have hbehind : r'.frame.machine.position = f.behind size := hposition
    rw [← hbehind]
    exact hshown
  · rw [hpush index hf] at hcame
    exact (Option.some.inj hcame).symm

/-- A program that jumps to where no jump may go, with a command for the pauses that it has not. -/
def jumpRun : RunArguments :=
  { code := .text "600a56", commands := ["c"] }

def jumpSetup : Setup where
  debugger := {}
  frame := { machine := { code := { bytes := ⟨#[0x60, 0x0a, 0x56]⟩ } } }
  commands := some ["c"]

/-- The cursor that is shown is the end of the code, behind the jump. -/
theorem endingLine_shows_cursor_jump :
    let line := "Execution failed at pc 0x3: Invalid jump destination: 10"
    ∃ (result : RunResult Prompt) (k : Nat) (f : Fetched),
      execute .erasing ["run", "--code", "600a56", "-x", "c"] [] "" 2 = some {
        output := printLines [""] ++ result.handler.printed ++
          printLines ("" :: line :: frameLines result.frame) } ∧
      jumpSetup.debugger.interpreter.IsLast Handler.prompt
        (jumpSetup.debugger.start jumpSetup.frame (.ofCommands ["c"]) {}) k f result.journal ∧
      line = "Execution failed at pc " ++ showPosition (f.behind 3) ++ ": " ++
        (Fault.invalidJump 10).message := by
  intro line
  have hrun : Invocation.ofArguments? ["run", "--code", "600a56", "-x", "c"] =
      some (.run jumpRun) := by decide +kernel
  have hload : (loadSetup [] jumpRun).run [] = (.ok jumpSetup, [""]) := rfl
  have hends : (jumpSetup.debugger.run Handler.prompt 2 (.ofCommands ["c"]) jumpSetup.frame {}).map
      (fun result => (result.ending, endingLine? result.ending result.frame)) =
        some (.failed (.machine (.invalidJump 10)),
          some "Execution failed at pc 0x3: Invalid jump destination: 10") := by decide +kernel
  obtain ⟨result, hresult, hends⟩ := Option.map_eq_some_iff.mp hends
  obtain ⟨hending, hline⟩ := Prod.mk.inj hends
  obtain ⟨hprinted, hcursor⟩ :=
    @endingLine_shows_cursor .erasing _ [] "" jumpRun jumpSetup [""] hrun hload rfl (by decide)
  obtain ⟨k, f, hlast, hshown, -⟩ := hcursor {} 2 result line hresult hline
  refine ⟨result, k, f, hprinted 2 result line hresult hline, hlast, ?_⟩
  rcases hshown with ⟨hcompleted, -⟩ | ⟨fault, hfailed, hshown⟩
  · rw [hending] at hcompleted
    cases hcompleted
  · rw [hending] at hfailed
    obtain rfl := RunError.machine.inj (Ending.failed.inj hfailed)
    exact hshown

/-- A program that stops at once. -/
def stopSetup : Setup where
  debugger := {}
  frame := { machine := { code := { bytes := ⟨#[0x00]⟩ } } }
  commands := some ["c"]

/-- The line about the end does not always show where the last instruction was fetched. -/
theorem not_endingLine_shows_fetched :
    ¬ ∀ (editor : LineEditor) (arguments : List String) (files : Files) (typed : String)
        (run : RunArguments) (setup : Setup) (printed : List String) (steps : Nat)
        (result : RunResult Prompt) (k shown : Nat) (f : Fetched),
      let prompt := promptOf editor setup.commands (Text.lines typed)
      let start := setup.debugger.start setup.frame prompt {}
      Invocation.ofArguments? arguments = some (.run run) →
      (loadSetup files run).run [] = (.ok setup, printed) →
      setup.frame.precompile? = none →
      setup.debugger.run Handler.prompt steps prompt setup.frame {} = some result →
      (endingLine? result.ending result.frame =
          some ("Execution halted at pc " ++ showPosition shown) ∨
        ∃ reason, endingLine? result.ending result.frame =
          some ("Execution failed at pc " ++ showPosition shown ++ ": " ++ reason)) →
      setup.debugger.interpreter.fetchedAt? Handler.prompt start k = some f →
      setup.debugger.interpreter.fetchedAt? Handler.prompt start (k + 1) = none →
      shown = f.position := by
  intro h
  have hrun : Invocation.ofArguments? ["run", "--code", "00", "-x", "c"] =
      some (.run { code := .text "00", commands := ["c"] }) := by decide +kernel
  have hshown := h .erasing _ [] "" _ stopSetup [""] 1 _ 0 1 _ hrun rfl rfl rfl (Or.inl rfl) rfl rfl
  exact absurd hshown (by decide)

end BytecodeDebugger.CommandLine
