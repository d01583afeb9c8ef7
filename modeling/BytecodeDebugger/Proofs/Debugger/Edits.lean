import BytecodeDebugger.Proofs.Debugger.Operation
import BytecodeDebugger.Proofs.Session.Release

/-!
# Breakpoints that were set and deleted

Breakpoints are edited between runs, and during a pause by a request or by a command.  The log of a
debugger lists every edit that was asked for, if it was during a pause while that was not over, each
with what was answered (`Session.editRecord?`, `Debugger.editLog`).

`Debugger.edits_persist` says that the breakpoints are what the edits in the log make of the first
ones, however the runs ended, and that each answer was true of the line map as it was then
(`LineMap.Accounts`).
-/

namespace BytecodeDebugger

/-! ### Records of edits -/

namespace BreakpointEdit

/-- An edit changes a set of lines if it adds a line that is absent or deletes one that is there. -/
def Changes (lines : Set Nat) : BreakpointEdit → Prop
  | add line => line ∉ lines
  | remove line => line ∈ lines

end BreakpointEdit

/-- An edit that was asked for, and what was answered. -/
structure EditRecord where
  edit : BreakpointEdit
  /-- Whether it was asked for by a command. -/
  byCommand : Bool
  /-- Whether it is new, or whether there was one, as far as that was said. -/
  changed : Option Bool
  /-- Whether code comes from the line, as far as that was said. -/
  reachable : Option Bool
deriving DecidableEq

/-- It was said whether the edit changed anything, and of a breakpoint that was set by a command
whether code comes from its line, and both are true of the line map. -/
structure EditRecord.Truthful (record : EditRecord) (m : LineMap) : Prop where
  /-- Whether the edit changed anything. -/
  changed : ∃ flag, record.changed = some flag ∧
    (flag = true ↔ record.edit.Changes m.breakpointSet)
  /-- Whether code comes from the line. -/
  reachable : ∀ line, record.edit = .add line → record.byCommand = true →
    ∃ flag, record.reachable = some flag ∧
      (flag = true ↔ ∃ position, m.line? position = some line)

namespace LineMap

/-- Records of edits that were made one after another, each of which is true of the line map as it
was then. -/
def Accounts : LineMap → List EditRecord → Prop
  | _, [] => True
  | m, record :: log => record.Truthful m ∧ (m.applyEdit record.edit).Accounts log

theorem accounts_append {m : LineMap} {log log' : List EditRecord} : m.Accounts (log ++ log') ↔
    m.Accounts log ∧ (m.applyEdits (log.map (·.edit))).Accounts log' := by
  induction log generalizing m with
  | nil => simp [Accounts, applyEdits]
  | cons record log ih =>
    rw [List.cons_append, Accounts, Accounts, ih, and_assoc]
    rfl

theorem accounts_singleton {m : LineMap} {record : EditRecord} (h : record.Truthful m) :
    m.Accounts [record] :=
  ⟨h, trivial⟩

theorem truthful_add (m : LineMap) (line : Nat) :
    EditRecord.Truthful ⟨.add line, false, some (!m.hasBreakpoint line), none⟩ m := by
  refine ⟨⟨_, rfl, ?_⟩, fun line' _ h => nomatch h⟩
  change (!m.hasBreakpoint line) = true ↔ line ∉ m.breakpointSet
  rw [mem_breakpointSet, Bool.not_eq_true', Bool.not_eq_true]

theorem truthful_remove (m : LineMap) (line : Nat) (byCommand : Bool) :
    EditRecord.Truthful ⟨.remove line, byCommand, some (m.hasBreakpoint line), none⟩ m :=
  ⟨⟨_, rfl, Iff.rfl⟩, fun _ h => nomatch h⟩

end LineMap

/-! ### What is asked for, and what is said -/

/-- How a command edits the breakpoints, if that is what it asks for. -/
def Command.edit? : Command → Option BreakpointEdit
  | .setBreakpoint n => some (.add n)
  | .deleteBreakpoint n => some (.remove n)
  | _ => none

/-- How a request edits the breakpoints, if that is what it asks for: by itself, as a command, or as
a text that writes such a command. -/
def Request.edit? : Request → Option BreakpointEdit
  | addBreakpoint n => some (.add n)
  | removeBreakpoint n => some (.remove n)
  | perform command => command.edit?
  | execute text => (Command.parse text).toOption.bind Command.edit?
  | _ => none

/-- Whether a request is one for a command. -/
def Request.isCommand : Request → Bool
  | perform _ | execute _ => true
  | _ => false

namespace Reply

/-- Whether an edit changed anything. -/
def changed? : Reply → Option Bool
  | breakpointSet _ added _ => some added
  | breakpointDeleted _ existed => some existed
  | _ => none

/-- Whether code comes from the line of an edit. -/
def reachable? : Reply → Option Bool
  | breakpointSet _ _ reachable => some reachable
  | _ => none

end Reply

namespace Exchange

/-- The reply to a command. -/
def reply? : Exchange → Option Reply
  | ⟨.perform _, answer⟩ => answer.toOption
  | ⟨.execute _, answer⟩ => answer.toOption
  | _ => none

/-- Whether an edit changed anything, as far as that was said. -/
def changed? : Exchange → Option Bool
  | ⟨.addBreakpoint _, answer⟩ => answer.toOption
  | ⟨.removeBreakpoint _, answer⟩ => answer.toOption
  | e => e.reply?.bind Reply.changed?

/-- Whether code comes from the line of an edit, as far as that was said. -/
def reachable? (e : Exchange) : Option Bool :=
  e.reply?.bind Reply.reachable?

end Exchange

namespace Session

variable {s : Session}

/-- The record of a request, if it asks for an edit while the pause is not over. -/
def editRecord? (s : Session) (request : Request) : Option EditRecord :=
  if s.isReleased then none
  else request.edit?.map fun edit =>
    { edit
      byCommand := request.isCommand
      changed := (s.exchange request).changed?
      reachable := (s.exchange request).reachable? }

theorem editRecord?_of_released {resume : Resume} (h : s.resumption = some resume)
    (request : Request) : s.editRecord? request = none := by
  rw [editRecord?, isReleased, h]
  rfl

theorem editRecord?_of_suspended (h : s.resumption = none) (request : Request) :
    s.editRecord? request = request.edit?.map fun edit =>
      ⟨edit, request.isCommand, (s.exchange request).changed?,
        (s.exchange request).reachable?⟩ := by
  rw [editRecord?, isReleased, h]
  rfl

/-! A text is answered as the command is that it writes. -/

theorem reply?_execute (h : s.resumption = none) {text : String} {command : Command}
    (hparse : Command.parse text = .ok command) :
    (s.exchange (.execute text)).reply? = (s.exchange (.perform command)).reply? := by
  rw [exchange, answer, execute_of_suspended h, hparse]
  rfl

theorem edit?_perform (h : s.resumption = none) (command : Command) :
    (s.exchange (.perform command)).edit? = command.edit? := by
  rw [exchange, answer]
  cases command with
  | «continue» | step => rw [perform, release_of_suspended h]; rfl
  | setBreakpoint n => rw [perform, addBreakpoint_of_suspended h]; rfl
  | deleteBreakpoint n => rw [perform, removeBreakpoint_of_suspended h]; rfl
  | memory offset length => rw [perform]; cases s.memory? offset length <;> rfl
  | _ =>
    simp only [perform, stack?, position?, line?, sourceLine?, sourceContext?, breakpoints?,
      whileSuspended_of_suspended h]
    rfl

/-- An edit is made if it is asked for while the pause is not over. -/
theorem edit?_exchange (s : Session) (request : Request) :
    (s.exchange request).edit? = (s.editRecord? request).map (·.edit) := by
  cases hs : s.resumption with
  | some resume =>
    rw [editRecord?_of_released hs, exchange]
    cases request with
    | execute text => rw [answer, execute_of_released hs]; rfl
    | perform command => rw [answer, perform_of_released hs]; rfl
    | addBreakpoint n => rw [answer, addBreakpoint_of_released hs]; rfl
    | removeBreakpoint n => rw [answer, removeBreakpoint_of_released hs]; rfl
    | _ => rfl
  | none =>
    have hedit : (s.editRecord? request).map (·.edit) = request.edit? := by
      rw [editRecord?_of_suspended hs, Option.map_map]
      exact Option.map_id'
    rw [hedit]
    cases request with
    | execute text =>
      rw [exchange, answer, execute_of_suspended hs, Request.edit?]
      cases Command.parse text with
      | ok command => exact edit?_perform hs command
      | error error => rfl
    | perform command => exact edit?_perform hs command
    | addBreakpoint n => rw [exchange, answer, addBreakpoint_of_suspended hs]; rfl
    | removeBreakpoint n => rw [exchange, answer, removeBreakpoint_of_suspended hs]; rfl
    | _ => rfl

/-- What is said about an edit by a command is true. -/
theorem truthful_perform (h : s.resumption = none) {command : Command} {edit : BreakpointEdit}
    (hedit : command.edit? = some edit) {e : Exchange}
    (he : e.reply? = (s.exchange (.perform command)).reply?) :
    EditRecord.Truthful
      ⟨edit, true, e.reply?.bind Reply.changed?, e.reply?.bind Reply.reachable?⟩ s.map := by
  rw [he, exchange, answer]
  cases command with
  | setBreakpoint n =>
    obtain rfl := Option.some.inj hedit
    rw [perform, addBreakpoint_of_suspended h]
    refine ⟨(s.map.truthful_add n).changed, fun line hline _ => ⟨_, rfl, ?_⟩⟩
    obtain rfl := BreakpointEdit.add.inj hline
    -- The answer is about the line map after the edit, which has the same lines.
    exact LineMap.isReachable_iff
  | deleteBreakpoint n =>
    obtain rfl := Option.some.inj hedit
    rw [perform, removeBreakpoint_of_suspended h]
    exact s.map.truthful_remove n true
  | _ => cases hedit

/-- **What is said about an edit is true.** -/
theorem truthful_editRecord? {request : Request} {record : EditRecord}
    (h : s.editRecord? request = some record) : record.Truthful s.map := by
  cases hs : s.resumption with
  | some resume => rw [editRecord?_of_released hs] at h; cases h
  | none =>
    rw [editRecord?_of_suspended hs] at h
    obtain ⟨edit, hedit, rfl⟩ := Option.map_eq_some_iff.mp h
    cases request with
    | execute text =>
      obtain ⟨command, hcommand, hedit⟩ := Option.bind_eq_some_iff.mp hedit
      have hparse : Command.parse text = .ok command := by
        cases hp : Command.parse text with
        | ok command' => rw [hp] at hcommand; rw [Option.some.inj hcommand]
        | error error => rw [hp] at hcommand; cases hcommand
      exact truthful_perform hs hedit (reply?_execute hs hparse)
    | perform command => exact truthful_perform hs hedit rfl
    | addBreakpoint n =>
      obtain rfl := Option.some.inj hedit
      rw [exchange, answer, addBreakpoint_of_suspended hs]
      exact s.map.truthful_add n
    | removeBreakpoint n =>
      obtain rfl := Option.some.inj hedit
      rw [exchange, answer, removeBreakpoint_of_suspended hs]
      exact s.map.truthful_remove n false
    | _ => cases hedit

end Session

namespace Dialogue

variable {α : Type}

/-- The records of the edits that are asked for in a dialogue while the pause is not over. -/
def editLog : Dialogue α → Session → List EditRecord
  | done _, _ => []
  | ask request next, s =>
    (s.editRecord? request).toList ++ (next (s.answer request).1).editLog (s.answer request).2
  | note event next, s => next.editLog (s.record event)

/-- The edits that succeed in a dialogue are those asked for while the pause is not over. -/
theorem map_edit_editLog (d : Dialogue α) (s : Session) :
    (d.editLog s).map (·.edit) = d.edits s := by
  induction d generalizing s with
  | done value => rfl
  | ask request next ih =>
    rw [editLog, edits_ask, List.map_append, ih, Session.edit?_exchange, Option.toList_map]
  | note event next ih => exact ih (s.record event)

theorem accounts_editLog (d : Dialogue α) (s : Session) : s.map.Accounts (d.editLog s) := by
  induction d generalizing s with
  | done value => trivial
  | ask request next ih =>
    have hnext := ih (s.answer request).1 (s.answer request).2
    rw [(s.advanced_answer request).map_eq, Session.edit?_exchange] at hnext
    rw [editLog, LineMap.accounts_append, ← Option.toList_map]
    refine ⟨?_, hnext⟩
    cases hrecord : s.editRecord? request with
    | none => trivial
    | some record => exact LineMap.accounts_singleton (Session.truthful_editRecord? hrecord)
  | note event next ih => exact ih (s.record event)

end Dialogue

/-- The handler that moves a breakpoint from the line of the addition to the next one, asks for one
more when the pause is over, and fails. -/
def Handler.moveAndFail : Handler Unit where
  onPause _ := do
    let _ ← Dialogue.request (.execute "b 12")
    let _ ← Dialogue.request (.removeBreakpoint 11)
    let _ ← Dialogue.request (.execute "b twelve")
    let _ ← Dialogue.request (.release .continue)
    let _ ← Dialogue.request (.addBreakpoint 10)
    return (.failed (.ofItsOwn "enough"), ())

namespace Debugger

open Interpreter

variable {σ : Type} {d d' : Debugger} {state state' : σ}

/-! ### The log of a debugger -/

/-- The records of the edits that are asked for in the pause before the next instruction. -/
def pauseLog (d : Debugger) (handler : Handler σ) (r : Run LineBreakpoints σ) : List EditRecord :=
  ((d.interpreter.nextCall? handler r).map fun c => c.dialogue.editLog c.session).getD []

/-- The records of the edits that an operation is or asks for. -/
def Operation.editLog (d : Debugger) (state : σ) : Operation σ → List EditRecord
  | .setBreakpoint line => [⟨.add line, false, some (d.setBreakpoint line).1, none⟩]
  | .removeBreakpoint line => [⟨.remove line, false, some (d.removeBreakpoint line).1, none⟩]
  | .run handler frame journal steps =>
    d.interpreter.gather handler (d.start frame state journal) (d.pauseLog handler) steps

/-- The records of all edits in operations, one after another. -/
def editLog (d : Debugger) (state : σ) (operations : List (Operation σ)) : List EditRecord :=
  d.gather Operation.editLog state operations

/-- The line map after edits, and that all that was said about them is true. -/
structure Logged (m : LineMap) (log : List EditRecord) (m' : LineMap) : Prop where
  map_eq : m' = m.applyEdits (log.map (·.edit))
  /-- What was said about them. -/
  accounts : m.Accounts log

theorem Logged.append {m m' m'' : LineMap} {log log' : List EditRecord} (h : Logged m log m')
    (h' : Logged m' log' m'') : Logged m (log ++ log') m'' := by
  obtain ⟨rfl, haccounts⟩ := h
  obtain ⟨rfl, haccounts'⟩ := h'
  exact ⟨by rw [List.map_append, LineMap.applyEdits_append],
    LineMap.accounts_append.mpr ⟨haccounts, haccounts'⟩⟩

/-- A pause leaves behind the edits in its log. -/
theorem logged_afterPause (d : Debugger) (handler : Handler σ) (r : Run LineBreakpoints σ) :
    Logged r.oracle.map (d.pauseLog handler r) (d.interpreter.afterPause handler r).oracle.map := by
  rw [afterPause_map, pauseLog]
  cases hc : d.interpreter.nextCall? handler r with
  | none => exact ⟨rfl, trivial⟩
  | some c =>
    rw [Option.map_some, Option.map_some, Option.getD_some, Option.getD_some, ← nextCall?_map hc]
    exact ⟨by rw [c.dialogue.map_edit_editLog]; rfl, c.dialogue.accounts_editLog c.session⟩

theorem logged_perform? {operation : Operation σ}
    (h : d.perform? state operation = some (d', state')) :
    Logged d.map (operation.editLog d state) d'.map := by
  cases operation with
  | setBreakpoint line =>
    obtain ⟨rfl, -⟩ := Prod.mk.inj (Option.some.inj h)
    exact ⟨rfl, LineMap.accounts_singleton (d.map.truthful_add line)⟩
  | removeBreakpoint line =>
    obtain ⟨rfl, -⟩ := Prod.mk.inj (Option.some.inj h)
    exact ⟨rfl, LineMap.accounts_singleton (d.map.truthful_remove line false)⟩
  | run handler frame journal steps =>
    obtain ⟨stepping, hlogged⟩ := run_induction h (d.pauseLog handler)
      (P := fun log carried => Logged d.map log carried.1.map) ⟨rfl, trivial⟩
      fun k rk log _ hlog => hlog.append (d.logged_afterPause handler rk)
    exact hlogged

/-- **Edits persist.**  Whatever is done with a debugger, and however its runs end, the list of
breakpoints ascends strictly and holds what the edits in the log, one after another, make of the
first breakpoints.  Every answer to an edit was true, and the lines of positions stay as they are.
A precompiled routine adds nothing to the log. -/
theorem edits_persist (d : Debugger) (state : σ) (operations : List (Operation σ))
    (h : d.performAll? state operations = some (d', state')) :
    {line | line ∈ d'.breakpointLines} = ((d.editLog state operations).map (·.edit)).foldl
      BreakpointEdit.applyTo {line | line ∈ d.breakpointLines} ∧
    d'.breakpointLines.Pairwise (· < ·) ∧
    d.map.Accounts (d.editLog state operations) ∧
    d'.map.lines = d.map.lines ∧
    ∀ (d₁ : Debugger) (state₁ : σ) handler frame journal steps, frame.precompile?.isSome →
      Operation.editLog d₁ state₁ (.run handler frame journal steps) = [] := by
  have hlogged : Logged d.map (d.editLog state operations) d'.map := by
    refine performAll?_induction Operation.editLog (P := fun log d₁ _ => Logged d.map log d₁.map)
      h ⟨rfl, trivial⟩ ?_
    intro operation _ log d₁ state₁ d₂ state₂ hlog hperform
    exact hlog.append (logged_perform? hperform)
  have hset (d₁ : Debugger) : {line | line ∈ d₁.breakpointLines} = d₁.map.breakpointSet :=
    Set.ext fun line => LineMap.mem_breakpointLines
  refine ⟨?_, d'.map.pairwise_breakpointLines, hlogged.accounts, ?_, ?_⟩
  · rw [hset, hset, hlogged.map_eq, LineMap.breakpointSet_applyEdits]
  · rw [hlogged.map_eq, LineMap.lines_applyEdits]
  · intro d₁ state₁ handler frame journal steps hprecompile
    exact gather_of_precompile (d₁.pauseLog handler) steps hprecompile

/-- What was edited before the handler failed stays edited, and what it asked for after the end of
the pause was not done. -/
theorem edits_persist_sum :
    let d := ofLineMap sumMap
    let operations : List (Operation Unit) :=
      [.setBreakpoint 99, .run Handler.moveAndFail sumFrame {} 5, .setBreakpoint 12]
    let log : List EditRecord :=
      [⟨.add 99, false, some true, none⟩, ⟨.add 12, true, some true, some true⟩,
        ⟨.remove 11, false, some true, none⟩, ⟨.add 12, false, some false, none⟩]
    ∃ d' state', d.performAll? () operations = some (d', state') ∧
      d.editLog () operations = log ∧ d.map.Accounts log ∧
      {line | line ∈ d'.breakpointLines} = {12, 99} := by
  intro d operations log
  have hends : (d.performAll? () operations).isSome := by decide +kernel
  have hlog : d.editLog () operations = log := by decide +kernel
  have hfirst : d.breakpointLines = [11] := by decide +kernel
  obtain ⟨⟨d', state'⟩, h⟩ := Option.isSome_iff_exists.mp hends
  obtain ⟨hset, -, haccounts, -⟩ := edits_persist d () operations h
  rw [hlog] at hset haccounts
  refine ⟨d', state', h, hlog, haccounts, ?_⟩
  rw [hset, hfirst]
  ext line
  simp only [log, List.map_cons, List.map_nil, List.foldl_cons, List.foldl_nil,
    BreakpointEdit.applyTo, List.mem_singleton, Set.ofPred_eq_eq_singleton, Set.mem_insert_iff,
    Set.mem_sdiff, Set.mem_singleton_iff]
  omega

end Debugger

end BytecodeDebugger
