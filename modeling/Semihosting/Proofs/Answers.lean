import Mathlib.Logic.Function.Iterate
import Semihosting.Trail

/-!
# Answers of a reader

A reader is asked for its next item again and again. Its trail says what it answers: the items in
order, then the fault if there is one, and from then on nothing. Main statements: a reader whose
trail goes along with its answers answers in that way (`Leaves.answer`), and therefore ends for good
(`Leaves.fused`).
-/
namespace Semihosting

namespace Trail

variable {α : Type}

/-- The items of a trail, and the fault behind them if there is one. -/
def answers (trail : Trail α) : List (Except Fault α) :=
  trail.items.map .ok ++ (trail.fault.map .error).toList

/-- What comes of a value, provided that no fault ended the reading. -/
def conclude {β : Type} (trail : Trail α) (value : β) : Except Fault β :=
  match trail.fault with
  | none => .ok value
  | some fault => .error fault

@[simp] theorem items_done : (done : Trail α).items = [] := rfl

@[simp] theorem items_broken (fault : Fault) : (broken fault : Trail α).items = [] := rfl

@[simp] theorem answers_done : (done : Trail α).answers = [] := rfl

@[simp] theorem answers_broken (fault : Fault) :
    (broken fault : Trail α).answers = [.error fault] := rfl

@[simp] theorem answers_cons (item : α) (trail : Trail α) :
    (trail.cons item).answers = .ok item :: trail.answers := rfl

/-- What is answered behind the last item is the fault, if the trail ends in one. -/
theorem answers_length (trail : Trail α) :
    trail.answers[trail.items.length]? = trail.fault.map .error := by
  rw [answers, List.getElem?_append_right (Nat.le_of_eq (List.length_map _)), List.length_map,
    Nat.sub_self]
  cases trail.fault <;> rfl

theorem length_answers_le (trail : Trail α) : trail.answers.length ≤ trail.items.length + 1 := by
  rw [answers, List.length_append, List.length_map]
  cases trail.fault with
  | none => exact Nat.le_succ _
  | some fault => exact Nat.le_refl _

theorem answers_eq_ok_iff {trail : Trail α} {asked : Nat} {item : α} :
    trail.answers[asked]? = some (.ok item) ↔ trail.items[asked]? = some item := by
  rw [answers, List.getElem?_append]
  split
  · simp
  next behind =>
    rw [List.length_map] at behind
    have none : trail.items[asked]? = none := List.getElem?_eq_none (Nat.le_of_not_lt behind)
    cases fault : trail.fault <;> simp [none, List.getElem?_singleton]

/-- A fault is answered once, right behind the items. -/
theorem answers_eq_error_iff {trail : Trail α} {asked : Nat} {fault : Fault} :
    trail.answers[asked]? = some (.error fault) ↔
      asked = trail.items.length ∧ trail.fault = some fault := by
  rw [answers, List.getElem?_append]
  split
  next before =>
    rw [List.length_map] at before
    simp
    omega
  next behind =>
    rw [List.length_map] at behind ⊢
    cases fault : trail.fault with
    | none => simp
    | some fault =>
      simp [List.getElem?_singleton]
      omega

theorem conclude_eq_ok_iff {β : Type} {trail : Trail α} {value result : β} :
    trail.conclude value = .ok result ↔ trail.fault = none ∧ value = result := by
  unfold conclude
  cases trail.fault with
  | none => simp
  | some fault => simp

theorem conclude_eq_error_iff {β : Type} {trail : Trail α} {value : β} {fault : Fault} :
    trail.conclude value = .error fault ↔ trail.fault = some fault := by
  unfold conclude
  cases trail.fault with
  | none => simp
  | some fault => simp

end Trail

/-- Each answer of a reader is the front of the trail it leaves, and the trail left behind the
answer is the remainder. Behind a fault and behind the end nothing is left. -/
structure Leaves {σ α : Type} (next : σ → Option (Except Fault α) × σ) (trail : σ → Trail α) :
    Prop where
  ended : ∀ {state after}, next state = (none, after) →
    trail state = .done ∧ trail after = .done
  failed : ∀ {state after fault}, next state = (some (.error fault), after) →
    trail state = .broken fault ∧ trail after = .done
  read : ∀ {state after item}, next state = (some (.ok item), after) →
    trail state = (trail after).cons item

/-- Answers that end for good: one of them at most is a fault, and where there is no item there is
nothing afterwards. -/
structure Fused {α : Type} (answer : Nat → Option (Except Fault α)) : Prop where
  once : ∀ first second fault fault', answer first = some (.error fault) →
    answer second = some (.error fault') → first = second
  silent : ∀ asked later, asked < later → (∀ item, answer asked ≠ some (.ok item)) →
    answer later = none

theorem Trail.fused_answers {α : Type} (trail : Trail α) :
    Fused fun asked => trail.answers[asked]? where
  once := by
    intro first second fault fault' answer answer'
    rw [(answers_eq_error_iff.mp answer).1, (answers_eq_error_iff.mp answer').1]
  silent := by
    intro asked later after noItem
    have past : trail.items.length ≤ asked := by
      simpa [answers_eq_ok_iff, ← Option.eq_none_iff_forall_ne_some] using noItem
    have few := trail.length_answers_le
    exact List.getElem?_eq_none (by omega)

/-- At any call a reader answers what stands there in the trail of the state it started from, so the
answers of a whole run can be told from the trail alone. -/
theorem Leaves.answer {σ α : Type} {next : σ → Option (Except Fault α) × σ}
    {trail : σ → Trail α} (leaves : Leaves next trail) (calls : Nat) (state : σ) :
    (next ((fun state => (next state).2)^[calls] state)).1 = (trail state).answers[calls]? := by
  induction calls generalizing state with
  | zero =>
    rw [Function.iterate_zero_apply]
    rcases answer : next state with ⟨_ | fault | item, after⟩
    · rw [(leaves.ended answer).1]
      rfl
    · rw [(leaves.failed answer).1]
      rfl
    · rw [leaves.read answer]
      rfl
  | succ calls ih =>
    rw [Function.iterate_succ_apply, ih]
    rcases answer : next state with ⟨_ | fault | item, after⟩
    · have rest := leaves.ended answer
      simp only [rest.1, rest.2, Trail.answers_done, List.getElem?_nil]
    · have rest := leaves.failed answer
      simp only [rest.1, rest.2, Trail.answers_done, Trail.answers_broken, List.getElem?_nil,
        List.getElem?_cons_succ]
    · rw [leaves.read answer, Trail.answers_cons, List.getElem?_cons_succ]

theorem Leaves.fused {σ α : Type} {next : σ → Option (Except Fault α) × σ} {trail : σ → Trail α}
    (leaves : Leaves next trail) (state : σ) :
    Fused fun calls => (next ((fun state => (next state).2)^[calls] state)).1 := by
  simp only [leaves.answer]
  exact (trail state).fused_answers

end Semihosting
