/-! Outcomes that are values or errors: steps that are taken one after the other, and errors that are passed on under
another name. -/
namespace SourceOrigin
variable {ε ε' α β : Type}

theorem eq_ok_of_toOption {outcome : Except ε α} {a : α} (h : outcome.toOption = some a) : outcome = .ok a := by
  cases outcome with
  | error error => simp [Except.toOption] at h
  | ok b => exact congrArg Except.ok (Option.some.inj h)

@[simp] theorem mapError_ok (f : ε → ε') (a : α) : (Except.ok a).mapError f = .ok a := rfl

@[simp] theorem mapError_error (f : ε → ε') (error : ε) :
    (Except.error error : Except ε α).mapError f = .error (f error) := rfl

theorem mapError_eq_ok_iff {f : ε → ε'} {result : Except ε α} {a : α} : result.mapError f = .ok a ↔ result = .ok a := by
  cases result <;> simp

theorem mapError_eq_error_iff {f : ε → ε'} {result : Except ε α} {error : ε'} :
    result.mapError f = .error error ↔ ∃ cause, result = .error cause ∧ f cause = error := by
  cases result <;> simp

theorem bind_eq_ok_iff {result : Except ε α} {f : α → Except ε β} {b : β} :
    result >>= f = .ok b ↔ ∃ a, result = .ok a ∧ f a = .ok b := by
  cases result <;> simp [bind, Except.bind]

theorem bind_eq_error_iff {result : Except ε α} {f : α → Except ε β} {error : ε} :
    result >>= f = .error error ↔ result = .error error ∨ ∃ a, result = .ok a ∧ f a = .error error := by
  cases result <;> simp [bind, Except.bind]

end SourceOrigin
