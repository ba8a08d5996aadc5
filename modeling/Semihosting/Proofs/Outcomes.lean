/-!
# Outcomes of computations

What is known when a computation that may fail at several places has not failed, and what a
computation over a state comes to step by step.
-/
namespace Semihosting

variable {ε α β : Type}

theorem bind_eq_ok_iff {outcome : Except ε α} {next : α → Except ε β} {result : β} :
    outcome.bind next = .ok result ↔ ∃ value, outcome = .ok value ∧ next value = .ok result := by
  cases outcome with
  | error fault => simp [Except.bind]
  | ok value => simp [Except.bind]

theorem map_eq_ok_iff {outcome : Except ε α} {change : α → β} {result : β} :
    outcome.map change = .ok result ↔ ∃ value, outcome = .ok value ∧ change value = result := by
  cases outcome with
  | error fault => simp [Except.map]
  | ok value => simp [Except.map]

theorem bind_eq_error_iff {outcome : Except ε α} {next : α → Except ε β} {fault : ε} :
    outcome.bind next = .error fault ↔
      outcome = .error fault ∨ ∃ value, outcome = .ok value ∧ next value = .error fault := by
  cases outcome with
  | error fault => simp [Except.bind]
  | ok value => simp [Except.bind]

theorem map_eq_error_iff {outcome : Except ε α} {change : α → β} {fault : ε} :
    outcome.map change = .error fault ↔ outcome = .error fault := by
  cases outcome with
  | error fault => simp [Except.map]
  | ok value => simp [Except.map]

theorem toOption_eq_some_iff {outcome : Except ε α} {value : α} :
    outcome.toOption = some value ↔ outcome = .ok value := by
  cases outcome with
  | error fault => simp [Except.toOption]
  | ok value => simp [Except.toOption]

theorem run_bind {σ : Type} {α β : Type} (action : StateM σ α) (next : α → StateM σ β)
    (state : σ) :
    (action >>= next).run state = (next (action.run state).1).run (action.run state).2 := rfl

end Semihosting
