import BytecodeDebugger.Proofs.Command.Grammar
import BytecodeDebugger.Proofs.Session.Release

/-!
# Replies

The reply to a command is what the requests of its own are answered, put together
(`Session.Answers`).  They are asked of the session as it was before the command, also where the
command edits the breakpoints.

A session refuses to show more memory than there can be, but no text writes a command that asks for
so much (`Command.performable_of_parse`).  So during a pause a text fails exactly if it is no
command.  If it is one it gets its reply, and it ends the pause if that is what it asks for
(`Session.execute_answers`).
-/

namespace BytecodeDebugger

namespace Command

/-- Nothing is asked for that there cannot be. -/
def Performable : Command → Prop
  | memory _ length => length ≤ Memory.limit
  | _ => True

theorem performable_of_arguments {command : Command} {words : List String}
    (h : command.Arguments words) : command.Performable := by
  cases command with
  | memory offset length =>
    obtain ⟨-, -, -, hlength⟩ := h
    exact hlength
  | _ => trivial

/-- What a text writes can be carried out. -/
theorem performable_of_parse {text : String} {command : Command} (h : parse text = .ok command) :
    command.Performable := by
  obtain ⟨_, -, _, _, -, -, harguments⟩ := parse_eq_ok_iff.mp h
  exact performable_of_arguments harguments

end Command

namespace Session

/-- A reply is the one to a command, and its values are what the session answers to the requests for
them.  Of a line with a breakpoint it tells whether the breakpoint is new or was there, and whether
any code comes from the line. -/
def Answers (s : Session) : Command → Reply → Prop
  | .continue, reply => reply = .resumed .continue
  | .step, reply => reply = .resumed .step
  | .stack, reply => ∃ words, s.stack? = .ok words ∧ reply = .stack words
  | .memory offset length, reply =>
      ∃ bytes, s.memory? offset length = .ok bytes ∧ reply = .memory offset bytes
  | .pc, reply => ∃ position, s.position? = .ok position ∧ reply = .pc position
  | .line, reply => ∃ line text, s.line? = .ok line ∧ s.sourceLine? = .ok text ∧
      reply = .line line text
  | .list radius, reply => ∃ current lines, s.line? = .ok current ∧
      s.sourceContext? radius = .ok lines ∧ reply = .listing current lines
  | .setBreakpoint line, reply => ∃ lines added reachable, s.breakpoints? = .ok lines ∧
      (added = true ↔ line ∉ lines) ∧
      (reachable = true ↔ ∃ position, s.map.line? position = some line) ∧
      reply = .breakpointSet line added reachable
  | .deleteBreakpoint line, reply => ∃ lines existed, s.breakpoints? = .ok lines ∧
      (existed = true ↔ line ∈ lines) ∧ reply = .breakpointDeleted line existed
  | .breakpoints, reply => ∃ lines, s.breakpoints? = .ok lines ∧ reply = .breakpoints lines
  | .help, reply => reply = .help

variable {s : Session}

theorem memory?_of_suspended (h : s.resumption = none) {offset length : Nat}
    (hlength : length ≤ Memory.limit) :
    s.memory? offset length = .ok (s.machine.memory.window offset length) := by
  rw [memory?, whileSuspended_of_suspended h]
  simp only [hlength, ↓reduceIte]
  rfl

theorem hasBreakpoint_iff_mem {m : LineMap} {line : Nat} :
    m.hasBreakpoint line = true ↔ line ∈ m.breakpointLines :=
  (LineMap.mem_breakpointLines.trans LineMap.mem_breakpointSet).symm

/-- **A command gets its reply** during a pause, if it asks for nothing that there cannot be. -/
theorem perform_answers (h : s.resumption = none) {command : Command}
    (hcommand : command.Performable) :
    ∃ reply, (s.perform command).1 = .ok reply ∧ s.Answers command reply := by
  have hline : s.line? = .ok s.line := whileSuspended_of_suspended h s.line
  have hlines : s.breakpoints? = .ok s.map.breakpointLines := whileSuspended_of_suspended h _
  cases command with
  | «continue» | step =>
    rw [perform, release_of_suspended h]
    exact ⟨_, rfl, rfl⟩
  | stack =>
    have hwords : s.stack? = .ok s.machine.stack.fromBottom := whileSuspended_of_suspended h _
    rw [perform, hwords]
    exact ⟨_, rfl, _, hwords, rfl⟩
  | memory offset length =>
    have hbytes : s.memory? offset length = .ok (s.machine.memory.window offset length) :=
      memory?_of_suspended h hcommand
    rw [perform, hbytes]
    exact ⟨_, rfl, _, hbytes, rfl⟩
  | pc =>
    have hposition : s.position? = .ok s.position := whileSuspended_of_suspended h _
    rw [perform, hposition]
    exact ⟨_, rfl, _, hposition, rfl⟩
  | line =>
    have htext : s.sourceLine? = .ok s.currentText := whileSuspended_of_suspended h _
    rw [perform, hline, htext]
    exact ⟨_, rfl, _, _, hline, htext, rfl⟩
  | list radius =>
    have hcontext : s.sourceContext? radius = .ok (s.currentContext radius) :=
      whileSuspended_of_suspended h _
    rw [perform, hline, hcontext]
    exact ⟨_, rfl, _, _, hline, hcontext, rfl⟩
  | setBreakpoint line =>
    have hadded : (!s.map.hasBreakpoint line) = true ↔ line ∉ s.map.breakpointLines := by
      rw [← hasBreakpoint_iff_mem, Bool.not_eq_true', Bool.not_eq_true]
    rw [perform, addBreakpoint_of_suspended h]
    -- A breakpoint is no matter of where the code comes from.
    exact ⟨_, rfl, _, _, _, hlines, hadded, LineMap.isReachable_iff, rfl⟩
  | deleteBreakpoint line =>
    rw [perform, removeBreakpoint_of_suspended h]
    exact ⟨_, rfl, _, _, hlines, hasBreakpoint_iff_mem, rfl⟩
  | breakpoints =>
    rw [perform, hlines]
    exact ⟨_, rfl, _, hlines, rfl⟩
  | help =>
    rw [perform, whileSuspended_of_suspended h]
    exact ⟨_, rfl, rfl⟩

/-- **During a pause a text is refused if it is no command**, and only then. -/
theorem execute_eq_malformed_iff (h : s.resumption = none) {text : String} {error : CommandError} :
    (s.execute text).1 = .error (.malformed error) ↔ Command.parse text = .error error := by
  rw [execute_of_suspended h]
  cases hparse : Command.parse text with
  | ok command =>
    obtain ⟨reply, hreply, -⟩ := perform_answers h (Command.performable_of_parse hparse)
    simp only [hreply]
    simp
  | error error' => simp

/-- **A text that is a command is carried out.**  During a pause a text is refused if it is no
command, for the reason that it is none, and only then; nothing happens then.  A text that is a
command gets the reply to that command, and the pause is over afterwards if this is what the command
asks for, in the way in which it asks for it. -/
theorem execute_answers {s : Session} (h : s.resumption = none) (text : String) :
    (∀ error, (s.execute text).1 = .error error ↔
      ∃ reason, Command.parse text = .error reason ∧ error = .malformed reason) ∧
    (∀ error, (s.execute text).1 = .error error → (s.execute text).2 = s) ∧
    ∀ command, Command.parse text = .ok command →
      (∃ reply, (s.execute text).1 = .ok reply ∧ s.Answers command reply) ∧
      (s.execute text).2.resumption = command.resume? := by
  rw [execute_of_suspended h]
  cases hparse : Command.parse text with
  | error reason =>
    refine ⟨fun error => ?_, fun error _ => rfl, nofun⟩
    simp [eq_comm]
  | ok command =>
    obtain ⟨reply, hreply, hanswers⟩ := perform_answers h (Command.performable_of_parse hparse)
    have hok (error : SessionError) : (s.perform command).1 ≠ .error error := by
      rw [hreply]
      exact nofun
    refine ⟨fun error => ?_, fun error herror => absurd herror (hok error), ?_⟩
    · exact ⟨fun herror => absurd herror (hok error), fun ⟨_, hreason, _⟩ => nomatch hreason⟩
    · intro command' hcommand
      obtain rfl := Except.ok.inj hcommand
      exact ⟨⟨reply, hreply, hanswers⟩, resumption_perform h command⟩

/-- A line whose code is known gets a breakpoint, and one byte too many is refused. -/
theorem execute_answers_break :
    let s : Session :=
      { machine := {}, position := 4, line := some 11, reason := .step, source := none,
        map := .ofLists [(4, 11), (5, 12)] [11] }
    (∃ reply, (s.execute "b 12").1 = .ok reply ∧ s.Answers (.setBreakpoint 12) reply) ∧
    (s.execute "b 12").2.resumption = none ∧
    (s.execute "mem 0 0x1000001").1 = .error (.malformed (.memoryTooLong 0x1000001)) ∧
    (s.execute "mem 0 0x1000001").2 = s := by
  intro s
  obtain ⟨-, -, hbreak⟩ := execute_answers (s := s) rfl "b 12"
  obtain ⟨hreply, hresumption⟩ := hbreak (.setBreakpoint 12) (by decide)
  obtain ⟨hrefused, hkept, -⟩ := execute_answers (s := s) rfl "mem 0 0x1000001"
  have herror := (hrefused _).mpr ⟨.memoryTooLong 0x1000001, by decide, rfl⟩
  exact ⟨hreply, hresumption, herror, hkept _ herror⟩

end Session

end BytecodeDebugger
