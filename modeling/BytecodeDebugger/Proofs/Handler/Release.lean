import BytecodeDebugger.Proofs.Handler.Typed
import BytecodeDebugger.Proofs.Run.Pause
import BytecodeDebugger.Proofs.Run.Resumption

/-!
# Handlers that end every pause

A dialogue ends the pause (`Dialogue.EndsPause`) if it returns, asks for the end of the pause once,
and is granted it.  `EndsPause` has a lemma for each way in which handlers put dialogues together;
with these, each handler is followed through its own recursion.

A handler that ends every pause it is called for (`Handler.Releases`) never ends a run: the run
comes to its end or its machine fails (`Debugger.endsEveryPause_of_releases`).  The handler that
always continues is one, and so is a script.  A prompt is one as well if its line editor neither
fails nor breaks off (`LineEditor.Reads`), whatever texts the editor delivers and wherever it is
interrupted.
-/

namespace BytecodeDebugger

variable {σ : Type} {P : σ → Prop} {bound : Nat} {s : Session}

/-! ### Dialogues that end the pause -/

namespace Dialogue

/-- The ways to go on that a dialogue asks for, in order, whether or not it is granted them. -/
def endsAsked {α : Type} (d : Dialogue α) (s : Session) : List Resume :=
  (d.exchanges s).filterMap fun e => e.request.resume?

theorem endsAsked_ask {α : Type} (request : Request) (next : request.Answer → Dialogue α)
    (s : Session) : (ask request next).endsAsked s =
      request.resume?.toList ++ (next (s.answer request).1).endsAsked (s.answer request).2 := by
  rw [endsAsked, exchanges, List.filterMap_cons, Session.exchange]
  cases request.resume? <;> rfl

/-- A dialogue of a handler that ends the pause: it returns with a state that satisfies `P`, the end
of the pause is asked for once and is granted, and there are at most `bound` requests.  If the pause
is over already, the end is not asked for again. -/
structure EndsPause (P : σ → Prop) (bound : Nat) (d : Dialogue (HandlerEnd × σ)) (s : Session) :
    Prop where
  /-- The call of the handler returns. -/
  how : (d.run s).1.1 = .returned
  state : P (d.run s).1.2
  released : ∃ resume, s.resumption.toList ++ d.endsAsked s = [resume] ∧
    (d.run s).2.resumption = some resume
  length_le : (d.exchanges s).length ≤ bound

namespace EndsPause

theorem mono {d : Dialogue (HandlerEnd × σ)} (h : d.EndsPause P bound s) {bound' : Nat}
    (hbound : bound ≤ bound') : d.EndsPause P bound' s :=
  ⟨h.how, h.state, h.released, h.length_le.trans hbound⟩

/-- Nothing more is asked for. -/
theorem done {resume : Resume} {state : σ} (h : s.resumption = some resume) (hstate : P state) :
    (Dialogue.done (.returned, state)).EndsPause P 0 s :=
  ⟨rfl, hstate, ⟨resume, by rw [h]; rfl, h⟩, le_rfl⟩

theorem note {event : Event} {next : Dialogue (HandlerEnd × σ)}
    (h : next.EndsPause P bound (s.record event)) :
    (Dialogue.note event next).EndsPause P bound s :=
  ⟨h.how, h.state, h.released, h.length_le⟩

/-- The end of the pause is not asked for when it is over. -/
theorem ask {request : Request} {next : request.Answer → Dialogue (HandlerEnd × σ)}
    (hrequest : s.resumption = none ∨ request.resume? = none)
    (h : (next (s.answer request).1).EndsPause P bound (s.answer request).2) :
    (Dialogue.ask request next).EndsPause P (bound + 1) s := by
  -- What was asked for before the rest of the dialogue is how the pause stands then.
  have hasked : s.resumption.toList ++ request.resume?.toList =
      (s.answer request).2.resumption.toList := by
    cases hs : s.resumption with
    | none => rw [Session.resumption_answer hs]; rfl
    | some resume =>
      have hnone : request.resume? = none := hrequest.resolve_left (by rw [hs]; simp)
      rw [hnone, Session.answer_of_released hs, hs]
      rfl
  refine ⟨h.how, h.state, ?_, ?_⟩
  · obtain ⟨resume, hends, hresumption⟩ := h.released
    refine ⟨resume, ?_, hresumption⟩
    rw [endsAsked_ask, ← List.append_assoc, hasked]
    exact hends
  · rw [exchanges, List.length_cons]
    exact Nat.succ_le_succ h.length_le

/-- A dialogue that is over if the pause is over, and otherwise goes on. -/
theorem unlessReleased {state : σ} {d : Dialogue (HandlerEnd × σ)} (hstate : P state)
    (h : s.resumption = none → d.EndsPause P bound s) :
    (do if ← Dialogue.request .isReleased then return (.returned, state) else d : Dialogue
      (HandlerEnd × σ)).EndsPause P (bound + 1) s := by
  refine ask (Or.inr rfl) ?_
  change (if s.isReleased then Dialogue.done (.returned, state) else d).EndsPause P bound s
  cases hs : s.resumption with
  | none =>
    rw [if_neg (by simp [Session.isReleased, hs])]
    exact h hs
  | some resume =>
    rw [if_pos (by simp [Session.isReleased, hs])]
    exact (done hs hstate).mono bound.zero_le

theorem resume {state : σ} (h : s.resumption = none) (resume : Resume) (hstate : P state) :
    (Dialogue.resume resume state).EndsPause P 1 s := by
  refine ask (Or.inl h) ?_
  rw [Session.answer, Session.release_of_suspended h]
  exact done rfl hstate

/-- A text is carried out, or refused because it is no command. -/
theorem execute {command : String}
    {next : Except SessionError Reply → Dialogue (HandlerEnd × σ)} (h : s.resumption = none)
    (hdone : ∀ reply s', (next (.ok reply)).EndsPause P bound s')
    (hrefused : ∀ error s', (next (.error (.malformed error))).EndsPause P bound s') :
    (Dialogue.ask (.execute command) next).EndsPause P (bound + 1) s := by
  refine ask (Or.inl h) ?_
  rw [Session.answer]
  cases hanswer : (s.execute command).1 with
  | ok reply => exact hdone reply _
  | error error =>
    cases error with
    | released => exact absurd hanswer (Session.execute_ne_released h command)
    | malformed error => exact hrefused error _

end EndsPause

end Dialogue

/-! ### Handlers that end every pause -/

/-- A handler that ends every pause that it is called for in a state that satisfies `P`, with at
most `bound` requests, and is in such a state again afterwards. -/
def Handler.Releases (handler : Handler σ) (P : σ → Prop) (bound : Nat) : Prop :=
  ∀ state s, P state → s.resumption = none → (handler.onPause state).EndsPause P bound s

theorem Handler.continueAlways_releases : Handler.continueAlways.Releases (fun _ => True) 1 :=
  fun _ _ _ h => .resume h .continue trivial

namespace Script

theorem converse_endsPause (commands : List String) (position : Nat) (script : Script)
    {limit : Nat} (hlimit : commands.length ≤ limit) (h : s.resumption = none) :
    (script.converse position commands).EndsPause (fun script => script.pending.length ≤ limit)
      (2 * commands.length + 1) s := by
  induction commands generalizing script s with
  | nil =>
    rw [converse]
    exact .resume h .continue hlimit
  | cons command rest ih =>
    have hrest : rest.length ≤ limit := by
      rw [List.length_cons] at hlimit
      omega
    have hbound : 2 * (command :: rest).length + 1 = 2 * rest.length + 1 + 1 + 1 := by
      rw [List.length_cons]
      omega
    rw [converse, hbound]
    refine .execute h (fun reply s' => ?_) (fun error s' => ?_)
    · exact .unlessReleased hrest fun h' => ih _ hrest h'
    · exact .note (.unlessReleased hrest fun h' => ih _ hrest h')

end Script

/-- A script ends every pause, and never has more commands to carry out than before. -/
theorem Handler.script_releases (limit : Nat) :
    Handler.script.Releases (fun script => script.pending.length ≤ limit) (2 * limit + 5) := by
  intro script s hlimit h
  change script.onPause.EndsPause _ _ _
  have hconverse := Script.converse_endsPause script.pending s.position
    (script.addPause ⟨s.position, s.line, s.reason, s.machine.stack.fromBottom⟩) hlimit h
  refine .ask (Or.inl h) (.ask (Or.inl h) (.ask (Or.inl h) (.ask (Or.inl h) ?_)))
  simp only [Session.answer, Session.position?, Session.line?, Session.stack?,
    Session.whileSuspended_of_suspended h]
  exact hconverse.mono (by omega)

/-- An editor that neither fails nor breaks off at any of the lines: it delivers a text, or is
interrupted. -/
def LineEditor.Reads (editor : LineEditor) (lines : List String) : Prop :=
  ∀ line ∈ lines, (∃ text, editor line = .text text) ∨ editor line = .interrupted

namespace Prompt

/-- A prompt with at most `limit` lines, which its editor reads if they are typed in. -/
structure Ready (limit : Nat) (p : Prompt) : Prop where
  reads : ∀ editor, p.input = .typed editor → editor.Reads p.pending
  length_le : p.pending.length ≤ limit

/-- Commands of a list are delivered as they are. -/
theorem Ready.deliver {limit : Nat} {p : Prompt} (h : p.Ready limit) {line : String}
    (hline : line ∈ p.pending) :
    (∃ text, p.deliver line = .text text) ∨ p.deliver line = .interrupted := by
  unfold Prompt.deliver
  cases hinput : p.input with
  | list => exact Or.inl ⟨line, rfl⟩
  | typed editor => exact h.reads editor hinput line hline

/-- Whatever is printed, the lines that are left are read as before. -/
theorem Ready.rest {limit : Nat} {p q : Prompt} (h : p.Ready limit) {line : String}
    (hpending : p.pending = line :: q.pending) (hinput : q.input = p.input) : q.Ready limit := by
  refine ⟨fun editor hq rest hrest => ?_, ?_⟩
  · exact h.reads editor (hinput ▸ hq) rest (hpending ▸ List.mem_cons_of_mem line hrest)
  · have hlength := h.length_le
    rw [hpending, List.length_cons] at hlength
    omega

theorem converse_endsPause (lines : List String) {limit : Nat} {p : Prompt}
    (hpending : p.pending = lines) (hp : p.Ready limit) (h : s.resumption = none) :
    (p.converse lines).EndsPause (Ready limit) (2 * lines.length + 1) s := by
  induction lines generalizing p s with
  | nil =>
    obtain ⟨notices, hfinishing⟩ := p.finishing_eq
    rw [converse_nil, hfinishing]
    exact .resume h .continue ⟨hp.reads, hp.length_le⟩
  | cons line rest ih =>
    have hbound : 2 * (line :: rest).length + 1 = 2 * rest.length + 1 + 1 + 1 := by
      rw [List.length_cons]
      omega
    have hrest (notices : List Notice) :
        { p with pending := rest, notices : Prompt }.Ready limit := hp.rest hpending rfl
    obtain ⟨notices, hawait⟩ := p.await_eq
    rw [hbound]
    rcases hp.deliver (hpending ▸ List.mem_cons_self) with ⟨text, hdeliver⟩ | hinterrupted
    · cases hcommand : p.command? text with
      | none =>
        rw [converse_skip hdeliver hcommand, hawait]
        exact (ih rfl (hrest notices) h).mono (by omega)
      | some command =>
        have htaking (answer : Except CommandError Reply) :
            (p.taking rest command answer).Ready limit :=
          hp.rest (hpending.trans (by rw [taking_pending])) (p.taking_input rest command answer)
        have hnext (answer : Except CommandError Reply) (s' : Session)
            (h' : s'.resumption = none) :=
          ih (p.taking_pending rest command answer) (htaking answer) h'
        rw [converse_cons hdeliver hcommand]
        refine .execute h (fun reply s' => ?_) (fun error s' => ?_)
        · exact .unlessReleased (htaking _) (hnext _ s')
        · exact .note (.unlessReleased (htaking _) (hnext _ _))
    · rw [converse_interrupted hinterrupted, hawait]
      exact (Dialogue.EndsPause.resume h .continue (hrest _)).mono (by omega)

end Prompt

/-- A prompt ends every pause, and never has more lines to take than before. -/
theorem Handler.prompt_releases (limit : Nat) :
    Handler.prompt.Releases (Prompt.Ready limit) (2 * limit + 5) := by
  intro p s hp h
  change p.onPause.EndsPause _ _ _
  let announced := p.announce (.paused s.position s.line s.reason s.currentText)
  have hannounced : announced.Ready limit := ⟨hp.reads, hp.length_le⟩
  have hconverse := Prompt.converse_endsPause announced.pending rfl hannounced h
  refine .ask (Or.inl h) (.ask (Or.inl h) (.ask (Or.inl h) (.ask (Or.inl h) ?_)))
  simp only [Session.answer, Session.position?, Session.line?, Session.sourceLine?,
    Session.whileSuspended_of_suspended h]
  have hlength := hannounced.length_le
  exact hconverse.mono (by omega)

/-! ### Runs in which every pause is ended -/

/-- The requests made during a call, in order, with their answers. -/
def HandlerCall.exchanges (c : HandlerCall σ) : List Exchange :=
  c.dialogue.exchanges c.session

/-- The ways to go on that are asked for during a call, in order. -/
def HandlerCall.endsAsked (c : HandlerCall σ) : List Resume :=
  c.dialogue.endsAsked c.session

namespace Interpreter

variable {ω : Type} [BreakpointOracle ω] {i : Interpreter} {handler : Handler σ} {r r' : Run ω σ}

theorem nextCall?_endsPause (h : handler.Releases P bound) (hr : P r.handler)
    {c : HandlerCall σ} (hc : i.nextCall? handler r = some c) :
    c.dialogue.EndsPause P bound c.session := by
  rw [nextCall?_dialogue hc]
  exact h r.handler c.session hr (nextCall?_suspended hc)

/-- The handler comes to every instruction in a state in which it ends the pause. -/
theorem releases_stateAt? (h : handler.Releases P bound) (hr : P r.handler) {k : Nat}
    {rk : Run ω σ} (hk : i.stateAt? handler r k = some rk) : P rk.handler := by
  refine stateAt?_induction (P := fun _ rk => P rk.handler) hk hr ?_
  intro j rj rj' _ hj hstep
  have hhandler := step_handler i handler rj
  rw [hstep, afterPause_handler] at hhandler
  change P rj'.handler
  change rj'.handler = _ at hhandler
  rw [hhandler]
  cases hc : i.nextCall? handler rj with
  | none => exact hj
  | some c => exact (nextCall?_endsPause h hj hc).state

theorem callAt?_endsPause (h : handler.Releases P bound) (hr : P r.handler) {k : Nat}
    {c : HandlerCall σ} (hc : i.callAt? handler r k = some c) :
    c.dialogue.EndsPause P bound c.session := by
  obtain ⟨rk, hk, hcall⟩ := callAt?_eq_some_iff.mp hc
  exact nextCall?_endsPause h (releases_stateAt? h hr hk) hcall

/-- A call that ends the pause is not the end of the run. -/
theorem ending?_of_endsPause {c : HandlerCall σ} (hsuspended : c.session.resumption = none)
    (h : c.dialogue.EndsPause P bound c.session) : c.ending? = none := by
  obtain ⟨resume, -, hresumption⟩ := h.released
  have hrelease : c.release? = some resume := by
    rw [← HandlerCall.closed_resumption hsuspended]
    exact hresumption
  rw [HandlerCall.ending?_eq_none_iff, hrelease]
  exact ⟨h.how, rfl⟩

/-- A run whose handler ends every pause ends with an instruction. -/
theorem ending_of_releases (h : handler.Releases P bound) (hr : P r.handler) {n : Nat}
    {ending : Ending} (hrun : i.run handler n r = some (ending, r')) :
    ending = .completed ∨ ∃ fault, ending = .failed (.machine fault) := by
  rcases run_ending_cases hrun with hend | hend | ⟨k, c, hc, hend⟩
  · exact Or.inl hend
  · exact Or.inr hend
  · obtain ⟨rk, -, hcall⟩ := callAt?_eq_some_iff.mp hc
    rw [ending?_of_endsPause (nextCall?_suspended hcall) (callAt?_endsPause h hr hc)] at hend
    cases hend

/-- The handler that always continues counts the pause. -/
theorem nextCall?_continueAlways {r : Run ω Nat} {c : HandlerCall Nat}
    (hc : i.nextCall? Handler.continueAlways r = some c) :
    c.ending? = none ∧ c.state = r.handler + 1 ∧ c.release? = some .continue := by
  have hsuspended := nextCall?_suspended hc
  have hdialogue : c.dialogue = Dialogue.resume .continue (r.handler + 1) := nextCall?_dialogue hc
  have hrun : c.dialogue.run c.session =
      ((.returned, r.handler + 1), (c.session.release .continue).2) := by
    rw [hdialogue, Dialogue.run_resume hsuspended]
  have hends := nextCall?_endsPause Handler.continueAlways_releases trivial hc
  refine ⟨ending?_of_endsPause hsuspended hends, ?_, ?_⟩
  · rw [HandlerCall.state, hrun]
  · rw [← HandlerCall.closed_resumption hsuspended, HandlerCall.closed, hrun,
      Session.release_of_suspended hsuspended]
    rfl

end Interpreter

namespace Debugger

/-- Every pause of a run is ended once, by a call of the handler that returns after at most `bound`
requests, and the run comes to its end or its machine fails. -/
structure EndsEveryPause (d : Debugger) (handler : Handler σ) (state : σ) (frame : Frame)
    (journal : Journal) (bound : Nat) : Prop where
  /-- How the run ends. -/
  ending : ∀ n result, d.run handler n state frame journal = some result →
    result.ending = .completed ∨ ∃ fault, result.ending = .failed (.machine fault)
  /-- How the pauses end. -/
  pause : ∀ k c, d.interpreter.callAt? handler (d.start frame state journal) k = some c →
    c.how = .returned ∧ ∃ resume, c.endsAsked = [resume] ∧ c.closed.resumption = some resume
  /-- The number of requests in a pause. -/
  length_le : ∀ k c, d.interpreter.callAt? handler (d.start frame state journal) k = some c →
    c.exchanges.length ≤ bound

theorem endsEveryPause_of_releases {handler : Handler σ} (h : handler.Releases P bound)
    (d : Debugger) {state : σ} (hstate : P state) (frame : Frame) (journal : Journal) :
    d.EndsEveryPause handler state frame journal bound := by
  constructor
  · intro n result hresult
    rw [run_eq] at hresult
    obtain ⟨⟨ending, r'⟩, hrun, rfl⟩ := Option.map_eq_some_iff.mp hresult
    exact Interpreter.ending_of_releases h hstate hrun
  · intro k c hc
    have hcall := Interpreter.callAt?_endsPause h hstate hc
    obtain ⟨rk, -, hnext⟩ := Interpreter.callAt?_eq_some_iff.mp hc
    obtain ⟨resume, hends, hresumption⟩ := hcall.released
    rw [Interpreter.nextCall?_suspended hnext] at hends
    exact ⟨hcall.how, resume, hends, hresumption⟩
  · intro k c hc
    exact (Interpreter.callAt?_endsPause h hstate hc).length_le

end Debugger

end BytecodeDebugger
