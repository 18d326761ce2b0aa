import FilterQuery.Rejection

namespace FilterQuery

/-!
# Sequencing of outcomes

A computation that can be rejected is a sequence of steps, and the first step that is
rejected decides.  These equations and inversions take such a sequence apart one step
at a time.
-/

variable {ε α β : Type}

@[simp]
theorem ok_bind (value : α) (proceed : α → Except ε β) :
    (Except.ok value >>= proceed) = proceed value := rfl

@[simp]
theorem error_bind (rejection : ε) (proceed : α → Except ε β) :
    (Except.error rejection >>= proceed) = .error rejection := rfl

theorem map_ok (f : α → β) (value : α) :
    Except.map f (.ok value : Except ε α) = .ok (f value) := rfl

/-- A sequence succeeds exactly if both of its steps do. -/
theorem bind_eq_ok_iff {first : Except ε α} {proceed : α → Except ε β} {result : β} :
    (first >>= proceed) = .ok result ↔
      ∃ value, first = .ok value ∧ proceed value = .ok result := by
  cases first with
  | error rejection => simp
  | ok value => simp

/-- A sequence fails with the rejection of the first step that fails. -/
theorem bind_eq_error_iff {first : Except ε α} {proceed : α → Except ε β} {rejection : ε} :
    (first >>= proceed) = .error rejection ↔
      first = .error rejection ∨ ∃ value, first = .ok value ∧ proceed value = .error rejection := by
  cases first with
  | error other => simp
  | ok value => simp

theorem map_eq_error_iff {outcome : Except ε α} {f : α → β} {rejection : ε} :
    outcome.map f = .error rejection ↔ outcome = .error rejection := by
  cases outcome with
  | error other => simp [Except.map]
  | ok value => simp [Except.map]

theorem map_eq_ok_iff {outcome : Except ε α} {f : α → β} {result : β} :
    outcome.map f = .ok result ↔ ∃ value, outcome = .ok value ∧ f value = result := by
  cases outcome with
  | error rejection => simp [Except.map]
  | ok value => simp [Except.map]

end FilterQuery
