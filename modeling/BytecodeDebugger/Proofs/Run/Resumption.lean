import BytecodeDebugger.Proofs.Run.History

/-!
# Pauses that are ended, and pauses that are not

A run goes on after a pause if the handler returned and the pause was ended, in the way of the first
release that succeeded.  Otherwise it is over: the handler returned and left the pause unended, gave
up, or broke off (`HandlerCall.ending?`).

`Interpreter.run_ending_iff` matches the ways in which a run ends to the ways in which a call of its
handler ends, and `Interpreter.run_aborted` says what such an end leaves of the run: all is as it
was before the instruction that the run paused at, but for the cursor.  `Interpreter.suspend_resume`
puts the two together.
-/

namespace BytecodeDebugger

namespace HandlerCall

variable {σ : Type} {c : HandlerCall σ}

theorem ending?_eq_notReleased_iff :
    c.ending? = some (.failed .notReleased) ↔ c.how = .returned ∧ c.release? = none := by
  rw [ending?]
  cases c.how <;> cases c.release? <;> simp

/-- The error of a handler ends the run, whether or not the pause was ended before. -/
theorem ending?_eq_handler_iff {error : HandlerError} :
    c.ending? = some (.failed (.handler error)) ↔ c.how = .failed error := by
  rw [ending?]
  cases c.how <;> cases c.release? <;> simp

theorem ending?_eq_crashed_iff : c.ending? = some .crashed ↔ c.how = .crashed := by
  rw [ending?]
  cases c.how <;> cases c.release? <;> simp

theorem ending?_ne_completed : c.ending? ≠ some .completed :=
  fun h => ending?_ne_ofResult? h (.ok .halt) rfl

end HandlerCall

namespace Interpreter

variable {ω σ : Type} [BreakpointOracle ω] {i : Interpreter} {handler : Handler σ} {r r' : Run ω σ}

/-! ### After a pause -/

theorem callAt?_eq_some_iff {k : Nat} {c : HandlerCall σ} : i.callAt? handler r k = some c ↔
    ∃ rk, i.stateAt? handler r k = some rk ∧ i.nextCall? handler rk = some c :=
  Option.bind_eq_some_iff

/-- The session of a call is suspended when the handler gets it, so that the first release that
succeeds during the call decides how it is left. -/
theorem closed_resumption_of_callAt? {k : Nat} {c : HandlerCall σ}
    (hc : i.callAt? handler r k = some c) : c.closed.resumption = c.release? := by
  obtain ⟨rk, -, hcall⟩ := callAt?_eq_some_iff.mp hc
  exact c.closed_resumption (nextCall?_suspended hcall)

/-- An instruction that the run pauses at is carried out if the call of the handler does not end the
run. -/
theorem dispatchAt?_isSome_iff {k : Nat} {c : HandlerCall σ}
    (hc : i.callAt? handler r k = some c) :
    (i.dispatchAt? handler r k).isSome ↔ c.ending? = none := by
  obtain ⟨rk, hk, hcall⟩ := callAt?_eq_some_iff.mp hc
  rw [dispatchAt?, hk, Option.bind_some, nextDispatch?_isSome_iff, hcall, Option.bind_some]

/-- The next instruction is one that the run stepped to if the pause was ended so. -/
theorem fetchedAt?_succ_pause {k : Nat} {c : HandlerCall σ} {f : Fetched}
    (hc : i.callAt? handler r k = some c) (hf : i.fetchedAt? handler r (k + 1) = some f) :
    f.pause = some .step ↔ c.release? = some .step := by
  obtain ⟨rk, hk, hcall⟩ := callAt?_eq_some_iff.mp hc
  obtain ⟨rk', hk', rfl⟩ := Option.map_eq_some_iff.mp hf
  obtain ⟨rk₀, hk₀, hstep⟩ := stateAt?_succ_eq_some_iff.mp hk'
  obtain rfl := Option.some.inj (hk.symm.trans hk₀)
  -- The flag that the pause leaves is not touched by the instruction after it.
  obtain ⟨hgo, -, hrk'⟩ := step_eq_none_iff.mp hstep
  have hstepping : rk'.stepping = decide (c.release? = some .step) := by
    rw [hrk']
    change (i.afterPause handler rk).stepping = _
    rw [afterPause_stepping hgo, hcall, Option.bind_some]
  rw [← decide_eq_true_iff (p := c.release? = some .step), ← hstepping]
  change pauseReason rk'.stepping _ = some .step ↔ _
  rw [pauseReason]
  split_ifs with hs hb <;> simp [hs]

/-! ### How a run ends -/

/-- A run ends with an instruction, or because of a call of its handler. -/
theorem run_ending_cases {n : Nat} {ending : Ending} (h : i.run handler n r = some (ending, r')) :
    ending = .completed ∨ (∃ fault, ending = .failed (.machine fault)) ∨
      ∃ k c, i.callAt? handler r k = some c ∧ c.ending? = some ending := by
  cases hp : r.frame.precompile? with
  | some routine =>
    -- There is no pause, and the routine ends as an instruction may end.
    rw [run_eq_precompile n hp] at h
    obtain ⟨rfl, -⟩ := Prod.mk.inj (Option.some.inj h)
    exact (runPrecompile_fst routine r.enter).imp_right Or.inl
  | none =>
    obtain ⟨k, -, rk, rk', hk, hend, -⟩ := (run_eq_some_iff hp).mp h
    rcases step_eq_some_cases hend with ⟨hcall, -⟩ | ⟨-, hresult, -⟩
    · obtain ⟨c, hc, hc'⟩ := Option.bind_eq_some_iff.mp hcall
      exact Or.inr (Or.inr ⟨k, c, callAt?_eq_some_iff.mpr ⟨rk, hk, hc⟩, hc'⟩)
    · exact (Ending.eq_of_ofResult? hresult).imp_right Or.inl

/-- A run passes on what its machine and its handler fail with, and not what a session refuses. -/
theorem ending_ne_session {n : Nat} {ending : Ending} (h : i.run handler n r = some (ending, r'))
    (error : SessionError) : ending ≠ .failed (.session error) := by
  rcases run_ending_cases h with rfl | ⟨fault, rfl⟩ | ⟨k, c, -, hend⟩
  · simp
  · simp
  · rintro rfl
    rw [HandlerCall.ending?] at hend
    split at hend <;> simp at hend

/-- **A run that is over because of a call of its handler**: the instruction that it paused at is
the last one and is not carried out, and nothing has happened to the frame since the instruction
before it but that the opcode was fetched. -/
theorem run_aborted {k : Nat} {c : HandlerCall σ} {ending : Ending}
    (hc : i.callAt? handler r k = some c) (hend : c.ending? = some ending) :
    i.dispatchAt? handler r k = none ∧
    (∀ j, k < j → i.callAt? handler r j = none ∧ i.dispatchAt? handler r j = none) ∧
    ∃ rk r', i.stateAt? handler r k = some rk ∧
      (∀ n, k < n → i.run handler n r = some (ending, r')) ∧
      r'.frame = { rk.frame with
        machine := { rk.frame.machine with code := rk.frame.machine.code.next.2 }
        status := .failed } ∧
      r'.handler = c.state := by
  obtain ⟨rk, hk, hcall⟩ := callAt?_eq_some_iff.mp hc
  have hbind : (i.nextCall? handler rk).bind HandlerCall.ending? = some ending := by
    rw [hcall, Option.bind_some, hend]
  have hstep : i.step handler rk = (some ending, i.afterPause handler rk) := by
    rw [step_eq, hbind]
  refine ⟨?_, ?_, rk, (i.afterPause handler rk).leave ending, hk, ?_, ?_, ?_⟩
  · rw [← Option.not_isSome_iff_eq_none, dispatchAt?_isSome_iff hc, hend]
    simp
  · -- The run ends with this instruction, so that there is none after it.
    intro j hj
    have hj' : i.stateAt? handler r j = none := stateAt?_eq_none_of_end hk hstep hj
    rw [callAt?, dispatchAt?, hj']
    exact ⟨rfl, rfl⟩
  · intro n hn
    exact (run_eq_some_iff (precompile?_of_stateAt? hk)).mpr ⟨k, hn, rk, _, hk, hstep, rfl⟩
  · -- A pause leaves the frame as the fetch made it, and a call never completes a run.
    have hne : ending ≠ .completed := by
      rintro rfl
      exact HandlerCall.ending?_ne_completed hend
    rw [Run.leave_frame_of_running (status_of_stateAt? hk).2, if_neg hne, afterPause_frame]
    rfl
  · change (i.afterPause handler rk).handler = c.state
    rw [afterPause_handler, hcall]
    rfl

/-- A run ends in one of the ways that are up to its handler if a call of the handler has it so. -/
theorem run_ending_iff {ending : Ending} (hcompleted : ending ≠ .completed)
    (hmachine : ∀ fault, ending ≠ .failed (.machine fault)) :
    (∃ n r', i.run handler n r = some (ending, r')) ↔
      ∃ k c, i.callAt? handler r k = some c ∧ c.ending? = some ending := by
  constructor
  · rintro ⟨n, r', h⟩
    rcases run_ending_cases h with rfl | ⟨fault, rfl⟩ | hcall
    · exact absurd rfl hcompleted
    · exact absurd rfl (hmachine fault)
    · exact hcall
  · rintro ⟨k, c, hc, hend⟩
    obtain ⟨-, -, rk, r', -, hrun, -⟩ := run_aborted hc hend
    exact ⟨k + 1, r', hrun (k + 1) k.lt_succ_self⟩

/-- **Suspending and resuming.**  After a pause the instruction is carried out if the handler
returned and had ended the pause, and the run goes on in the way of the first release that
succeeded.  A run fails for want of a release, with the error of its handler, or because its handler
broke off, just when a call of the handler ended so; otherwise it comes to its end or its machine
fails.  It never fails with the refusal of a session as such.  After a call that ends the run
nothing is carried out and nobody is called. -/
theorem suspend_resume (i : Interpreter) (handler : Handler σ) (r : Run ω σ) :
    (∀ k c, i.callAt? handler r k = some c →
      ((i.dispatchAt? handler r k).isSome ↔ c.how = .returned ∧ c.closed.isReleased) ∧
      c.closed.resumption = c.release? ∧
      ∀ f, i.fetchedAt? handler r (k + 1) = some f →
        (f.pause = some .step ↔ c.release? = some .step)) ∧
    ((∃ n r', i.run handler n r = some (.failed .notReleased, r')) ↔
      ∃ k c, i.callAt? handler r k = some c ∧ c.how = .returned ∧ c.closed.isReleased = false) ∧
    (∀ error, (∃ n r', i.run handler n r = some (.failed (.handler error), r')) ↔
      ∃ k c, i.callAt? handler r k = some c ∧ c.how = .failed error) ∧
    ((∃ n r', i.run handler n r = some (.crashed, r')) ↔
      ∃ k c, i.callAt? handler r k = some c ∧ c.how = .crashed) ∧
    (∀ n ending r', i.run handler n r = some (ending, r') →
      (∀ k c, i.callAt? handler r k = some c → c.ending? = none) →
      ending = .completed ∨ ∃ fault, ending = .failed (.machine fault)) ∧
    (∀ n error r', i.run handler n r ≠ some (.failed (.session error), r')) ∧
    ∀ k c ending, i.callAt? handler r k = some c → c.ending? = some ending →
      i.dispatchAt? handler r k = none ∧
      (∀ j, k < j → i.callAt? handler r j = none ∧ i.dispatchAt? handler r j = none) ∧
      ∃ rk r', i.stateAt? handler r k = some rk ∧
        (∀ n, k < n → i.run handler n r = some (ending, r')) ∧
        r'.frame = { rk.frame with
          machine := { rk.frame.machine with code := rk.frame.machine.code.next.2 }
          status := .failed } ∧
        r'.handler = c.state := by
  refine ⟨?_, ?_, ?_, ?_, ?_, ?_, ?_⟩
  · intro k c hc
    have hresumption := closed_resumption_of_callAt? hc
    refine ⟨?_, hresumption, fun f hf => fetchedAt?_succ_pause hc hf⟩
    rw [dispatchAt?_isSome_iff hc, c.ending?_eq_none_iff, Session.isReleased, hresumption]
  · rw [run_ending_iff (by simp) (by simp)]
    refine exists_congr fun k => exists_congr fun c => and_congr_right fun hc => ?_
    rw [HandlerCall.ending?_eq_notReleased_iff, Session.isReleased, closed_resumption_of_callAt? hc,
      Option.isSome_eq_false_iff, Option.isNone_iff_eq_none]
  · intro error
    rw [run_ending_iff (by simp) (by simp)]
    simp only [HandlerCall.ending?_eq_handler_iff]
  · rw [run_ending_iff (by simp) (by simp)]
    simp only [HandlerCall.ending?_eq_crashed_iff]
  · intro n ending r' hrun hgo
    rcases run_ending_cases hrun with h | h | ⟨k, c, hc, hend⟩
    · exact Or.inl h
    · exact Or.inr h
    · rw [hgo k c hc] at hend
      cases hend
  · intro n error r' hrun
    exact ending_ne_session hrun error rfl
  · intro k c ending hc hend
    exact run_aborted hc hend

end Interpreter

/-- The handler that ends the pause twice.  It fails, since the second time is refused. -/
def Handler.releaseTwice : Handler Nat where
  onPause pauses := do
    let _ ← Dialogue.request (.release .continue)
    Dialogue.resume .step (pauses + 1)

namespace Interpreter

/-- The first release succeeds, but the run fails with the handler all the same, and does not come
to the addition. -/
theorem suspend_resume_sum :
    ∃ c, callAt? {} Handler.releaseTwice sumRun 2 = some c ∧
      c.how = .failed (.session .released) ∧ c.closed.resumption = some .continue ∧
      dispatchAt? {} Handler.releaseTwice sumRun 2 = none ∧
      (∃ n r', run {} Handler.releaseTwice n sumRun =
        some (.failed (.handler (.session .released)), r')) ∧
      ∃ r', run {} Handler.releaseTwice 3 sumRun =
          some (.failed (.handler (.session .released)), r') ∧
        r'.frame.machine.stack.words = [2, 1] := by
  obtain ⟨hpause, -, hfailed, -, -, -, haborted⟩ := suspend_resume {} Handler.releaseTwice sumRun
  have hc : callAt? {} Handler.releaseTwice sumRun 2 = some _ := rfl
  have hk : stateAt? {} Handler.releaseTwice sumRun 2 = some _ := rfl
  obtain ⟨hdispatch, -, rk, r', hk', hrun, hframe, -⟩ :=
    haborted 2 _ (.failed (.handler (.session .released))) hc rfl
  obtain rfl := Option.some.inj (hk.symm.trans hk')
  refine ⟨_, hc, rfl, (hpause 2 _ hc).2.1.trans rfl, hdispatch,
    (hfailed _).mpr ⟨2, _, hc, rfl⟩, r', hrun 3 (by decide), ?_⟩
  rw [hframe]
  rfl

end Interpreter

end BytecodeDebugger
