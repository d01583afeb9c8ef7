/-!
# Results

What is known of a computation from the result that it comes to, for the ways in which computations
that may fail are put together.
-/

namespace Except

variable {ε ε' α β : Type} {x : Except ε α}

theorem bind_eq_ok_iff {f : α → Except ε β} {b : β} :
    (x >>= f) = .ok b ↔ ∃ a, x = .ok a ∧ f a = .ok b := by
  cases x with
  | ok a =>
    show f a = .ok b ↔ _
    simp
  | error e =>
    show Except.error e = .ok b ↔ _
    simp

theorem map_eq_ok_iff {f : α → β} {b : β} : x.map f = .ok b ↔ ∃ a, x = .ok a ∧ f a = b := by
  cases x with
  | ok a => simp [Except.map]
  | error e => simp [Except.map]

theorem map_eq_error {f : α → β} {e : ε} (h : x.map f = .error e) : x = .error e := by
  cases x with
  | ok a => cases h
  | error e' => exact congrArg Except.error (Except.error.inj h)

/-- A result that is an error for other reasons is the same result. -/
theorem mapError_eq_ok_iff {f : ε → ε'} {a : α} : x.mapError f = .ok a ↔ x = .ok a := by
  cases x with
  | ok a' =>
    show Except.ok a' = .ok a ↔ _
    simp
  | error e =>
    show Except.error (f e) = .ok a ↔ _
    simp

theorem mapError_eq_error_iff {f : ε → ε'} {e' : ε'} :
    x.mapError f = .error e' ↔ ∃ e, x = .error e ∧ e' = f e := by
  cases x with
  | ok a =>
    show Except.ok a = .error e' ↔ _
    simp
  | error e =>
    show Except.error (f e) = .error e' ↔ _
    simp [eq_comm]

end Except
