import BytecodeDebugger.Proofs.Session.Exchange

/-!
# After the end of a pause

Fourteen kinds of requests look at a session, edit its breakpoints or end it, and all of them fail
once it is over (`Session.refusal?_of_released`).  The other three tell why the run paused and how
the pause was ended, and go on to do so.

A request that is refused leaves the session as it is (`Session.answer_of_refusal`), and a session
that is suspended ends with a request for its end and no other (`Session.resumption_answer`).
`Session.released_absorbing` is what comes of the two for requests in any order.
-/

namespace BytecodeDebugger

/-! ### What a request asks for, and what it gets -/

/-- How a command ends the pause, if that is what it asks for. -/
def Command.resume? : Command → Option Resume
  | .continue => some .continue
  | .step => some .step
  | _ => none

namespace Request

/-- How a request ends the pause, if that is what it asks for: by itself, as a command, or as a text
that writes such a command. -/
def resume? : Request → Option Resume
  | release resume => some resume
  | perform command => command.resume?
  | execute text => (Command.parse text).toOption.bind Command.resume?
  | _ => none

/-- Whether a request is about the pause itself, and is answered when the pause is over. -/
def outlastsPause : Request → Bool
  | reason | isReleased | resumption => true
  | _ => false

end Request

/-- Why the session refused the request, if it did. -/
def Exchange.refusal? : Exchange → Option SessionError
  | ⟨.execute _, .error error⟩ | ⟨.perform _, .error error⟩ | ⟨.stack, .error error⟩
  | ⟨.memory _ _, .error error⟩ | ⟨.memorySize, .error error⟩ | ⟨.position, .error error⟩
  | ⟨.line, .error error⟩ | ⟨.returnData, .error error⟩ | ⟨.sourceLine, .error error⟩
  | ⟨.sourceContext _, .error error⟩ | ⟨.addBreakpoint _, .error error⟩
  | ⟨.removeBreakpoint _, .error error⟩ | ⟨.breakpoints, .error error⟩
  | ⟨.release _, .error error⟩ => some error
  | _ => none

namespace Session

variable {s : Session}

/-! ### A session that is over -/

/-- Nothing happens any more to a session that is over. -/
theorem answer_of_released {resume : Resume} (h : s.resumption = some resume) (request : Request) :
    (s.answer request).2 = s := by
  cases request with
  | execute text => rw [answer, execute_of_released h]
  | perform command => rw [answer, perform_of_released h]
  | addBreakpoint line => rw [answer, addBreakpoint_of_released h]
  | removeBreakpoint line => rw [answer, removeBreakpoint_of_released h]
  | release resume' => rw [answer, release_of_released h]
  | _ => rfl

theorem afterRequests_of_released {resume : Resume} (h : s.resumption = some resume)
    (requests : List Request) : s.afterRequests requests = s := by
  induction requests with
  | nil => rfl
  | cons request requests ih =>
    rw [afterRequests, List.foldl_cons, answer_of_released h]
    exact ih

/-- Everything that needs the pause is refused when it is over. -/
theorem refusal?_of_released {resume : Resume} (h : s.resumption = some resume) {request : Request}
    (hrequest : request.outlastsPause = false) :
    (s.exchange request).refusal? = some .released := by
  cases request with
  | execute text => rw [exchange, answer, execute_of_released h]; rfl
  | perform command => rw [exchange, answer, perform_of_released h]; rfl
  | addBreakpoint line => rw [exchange, answer, addBreakpoint_of_released h]; rfl
  | removeBreakpoint line => rw [exchange, answer, removeBreakpoint_of_released h]; rfl
  | release resume' => rw [exchange, answer, release_of_released h]; rfl
  | reason | isReleased | resumption => cases hrequest
  | memory offset length =>
    -- That the pause is over is noticed before the length is looked at.
    rw [exchange, answer, memory?, whileSuspended_of_released h]; rfl
  | _ =>
    simp only [exchange, answer, stack?, memorySize?, position?, line?, returnData?, sourceLine?,
      sourceContext?, breakpoints?, whileSuspended_of_released h]
    rfl

/-! ### A session that is suspended -/

theorem resumption_perform (h : s.resumption = none) (command : Command) :
    (s.perform command).2.resumption = command.resume? := by
  cases command with
  | «continue» | step => rw [perform, release_of_suspended h]; rfl
  | setBreakpoint line => rw [perform, addBreakpoint_of_suspended h]; exact h
  | deleteBreakpoint line => rw [perform, removeBreakpoint_of_suspended h]; exact h
  | _ => exact h

/-- A request for the end of a pause ends it, and no other request does. -/
theorem resumption_answer (h : s.resumption = none) (request : Request) :
    (s.answer request).2.resumption = request.resume? := by
  cases request with
  | execute text =>
    rw [answer, execute_of_suspended h, Request.resume?]
    cases Command.parse text with
    | ok command => exact resumption_perform h command
    | error error => exact h
  | perform command => exact resumption_perform h command
  | addBreakpoint line => rw [answer, addBreakpoint_of_suspended h]; exact h
  | removeBreakpoint line => rw [answer, removeBreakpoint_of_suspended h]; exact h
  | release resume => rw [answer, release_of_suspended h]; rfl
  | _ => exact h

/-! During a pause nothing is refused because the pause is over. -/

theorem memory?_ne_released (h : s.resumption = none) (offset length : Nat) :
    s.memory? offset length ≠ .error .released := by
  intro hreleased
  rw [memory?, whileSuspended_of_suspended h] at hreleased
  by_cases hlength : length ≤ Memory.limit
  · simp only [hlength, ↓reduceIte] at hreleased
    cases hreleased
  · simp only [hlength, ↓reduceIte] at hreleased
    cases hreleased

theorem perform_ne_released (h : s.resumption = none) (command : Command) :
    (s.perform command).1 ≠ .error .released := by
  intro hreleased
  cases command with
  | «continue» | step =>
    rw [perform, release_of_suspended h] at hreleased
    cases hreleased
  | setBreakpoint line =>
    rw [perform, addBreakpoint_of_suspended h] at hreleased
    cases hreleased
  | deleteBreakpoint line =>
    rw [perform, removeBreakpoint_of_suspended h] at hreleased
    cases hreleased
  | memory offset length =>
    rw [perform] at hreleased
    cases hmemory : s.memory? offset length with
    | ok bytes => rw [hmemory] at hreleased; cases hreleased
    | error error =>
      rw [hmemory] at hreleased
      obtain rfl := Except.error.inj hreleased
      exact memory?_ne_released h offset length hmemory
  | _ =>
    simp only [perform, stack?, position?, line?, sourceLine?, sourceContext?, breakpoints?,
      whileSuspended_of_suspended h] at hreleased
    cases hreleased

theorem execute_ne_released (h : s.resumption = none) (text : String) :
    (s.execute text).1 ≠ .error .released := by
  rw [execute_of_suspended h]
  cases Command.parse text with
  | ok command => exact perform_ne_released h command
  | error error => simp

/-! ### Refusals -/

theorem perform_of_error {command : Command} {error : SessionError}
    (h : (s.perform command).1 = .error error) : (s.perform command).2 = s := by
  cases hs : s.resumption with
  | some resume => rw [perform_of_released hs]
  | none =>
    cases command with
    | «continue» | step => rw [perform, release_of_suspended hs] at h; cases h
    | setBreakpoint line => rw [perform, addBreakpoint_of_suspended hs] at h; cases h
    | deleteBreakpoint line => rw [perform, removeBreakpoint_of_suspended hs] at h; cases h
    | _ => rfl

/-- A request that is refused leaves the session as it is. -/
theorem answer_of_refusal {request : Request} {error : SessionError}
    (h : (s.exchange request).refusal? = some error) : (s.answer request).2 = s := by
  cases hs : s.resumption with
  | some resume => exact answer_of_released hs request
  | none =>
    cases request with
    | execute text =>
      rw [exchange, answer, execute_of_suspended hs] at h
      rw [answer, execute_of_suspended hs]
      cases hparse : Command.parse text with
      | error error => rfl
      | ok command =>
        rw [hparse] at h
        cases hperform : (s.perform command).1 with
        | ok reply => simp only [hperform, Exchange.refusal?] at h; cases h
        | error error' => exact perform_of_error hperform
    | perform command =>
      rw [exchange, answer] at h
      cases hperform : (s.perform command).1 with
      | ok reply => rw [hperform] at h; cases h
      | error error' => exact perform_of_error hperform
    | addBreakpoint line => rw [exchange, answer, addBreakpoint_of_suspended hs] at h; cases h
    | removeBreakpoint line => rw [exchange, answer, removeBreakpoint_of_suspended hs] at h; cases h
    | release resume => rw [exchange, answer, release_of_suspended hs] at h; cases h
    | _ => rfl

/-! ### From the end of a pause on -/

/-- A request for the end of a pause does what a release does. -/
theorem answer_of_resume (h : s.resumption = none) {request : Request} {resume : Resume}
    (hresume : request.resume? = some resume) :
    (s.answer request).2 = (s.release resume).2 := by
  have hperform (command : Command) (hcommand : command.resume? = some resume) :
      (s.perform command).2 = (s.release resume).2 := by
    cases command with
    | «continue» | step => obtain rfl := Option.some.inj hcommand; rfl
    | _ => cases hcommand
  cases request with
  | execute text =>
    rw [answer, execute_of_suspended h]
    rw [Request.resume?] at hresume
    cases hparse : Command.parse text with
    | ok command => rw [hparse] at hresume; exact hperform command hresume
    | error error => rw [hparse] at hresume; cases hresume
  | perform command => exact hperform command hresume
  | release resume' => obtain rfl := Option.some.inj hresume; rfl
  | _ => cases hresume

theorem suspended_of_release {request : Request} {resume : Resume}
    (hresume : request.resume? = some resume) (h : (s.exchange request).refusal? = none) :
    s.resumption = none := by
  cases hs : s.resumption with
  | none => rfl
  | some resume' =>
    have hpause : request.outlastsPause = false := by
      cases request with
      | execute text | perform command | release resume'' => rfl
      | _ => cases hresume
    rw [refusal?_of_released hs hpause] at h
    cases h

/-- **Once a pause is over, it stays so.**  After the first request for its end that is granted,
everything that needs the pause is refused, and breakpoints, lines and the way in which the pause
was ended stay as they were.  Until then a request that is refused changes neither the line map nor
that the session is suspended, and the requests that change the latter are those for the end of the
pause. -/
theorem released_absorbing (s : Session) (before : List Request) :
    let paused := s.afterRequests before
    (∀ request resume, request.resume? = some resume →
      (paused.exchange request).refusal? = none →
      ∀ later, let after := (paused.answer request).2.afterRequests later
        after.map = paused.map ∧ after.resumption = some resume ∧
        ∀ next, next.outlastsPause = false →
          (after.exchange next).refusal? = some .released) ∧
    (paused.resumption = none → ∀ request,
      (∀ error, (paused.exchange request).refusal? = some error →
        (paused.answer request).2.map = paused.map ∧
        (paused.answer request).2.resumption = none) ∧
      (paused.answer request).2.resumption = request.resume?) := by
  intro paused
  refine ⟨?_, ?_⟩
  · intro request resume hresume hgranted later after
    have hpaused : paused.resumption = none := suspended_of_release hresume hgranted
    have hended : (paused.answer request).2.resumption = some resume := by
      rw [resumption_answer hpaused, hresume]
    -- Nothing happens to the session after its end.
    have hafter : after = (paused.answer request).2 := afterRequests_of_released hended later
    rw [hafter]
    refine ⟨?_, hended, fun next hnext => refusal?_of_released hended hnext⟩
    rw [answer_of_resume hpaused hresume, release_of_suspended hpaused]
    rfl
  · intro hpaused request
    refine ⟨fun error herror => ?_, resumption_answer hpaused request⟩
    rw [answer_of_refusal herror]
    exact ⟨rfl, hpaused⟩

/-- A session that was told to go on, after an edit and a text that is no command.  The memory asked
for afterwards is more than there can be, but that is not what it says. -/
theorem released_absorbing_continue :
    let s : Session := {
      machine := {}, position := 4, line := some 11, reason := .breakpoint
      map := LineMap.ofLists [(4, 11)] [11], source := none }
    let paused := s.afterRequests [.addBreakpoint 12, .execute "frobnicate"]
    let after := (paused.answer (.execute "c")).2.afterRequests [.removeBreakpoint 11, .release .step]
    (paused.exchange (.execute "c")).refusal? = none ∧
    after.map = paused.map ∧ after.resumption = some .continue ∧
    (after.exchange (.memory 0 (Memory.limit + 1))).refusal? = some .released ∧
    (after.exchange (.execute "frobnicate")).refusal? = some .released ∧
    (paused.exchange (.execute "frobnicate")).refusal? =
      some (.malformed (.unknown "frobnicate")) ∧
    (paused.answer (.execute "frobnicate")).2.map = paused.map := by
  intro s paused after
  have hgranted : (paused.exchange (.execute "c")).refusal? = none := by decide +kernel
  have hrefused : (paused.exchange (.execute "frobnicate")).refusal? =
      some (.malformed (.unknown "frobnicate")) := by decide +kernel
  obtain ⟨hreleased, hsuspended⟩ :=
    released_absorbing s [.addBreakpoint 12, .execute "frobnicate"]
  obtain ⟨hmap, hresumption, hnext⟩ := hreleased (.execute "c") .continue (by decide +kernel)
    hgranted [.removeBreakpoint 11, .release .step]
  obtain ⟨hkept, -⟩ := hsuspended (by decide +kernel) (.execute "frobnicate")
  exact ⟨hgranted, hmap, hresumption, hnext _ rfl, hnext _ rfl, hrefused, (hkept _ hrefused).1⟩

end Session

end BytecodeDebugger
