import Torque.Transition.Run
import Mathlib.Data.Nat.Find

/-!
# Infinite runs

An infinite run is given by its first state and the event of each moment.  Every state of it is
reached by a finite run.  Something that stays as it is until an event occurs is met by that
event, if the event occurs at all: this is how fairness is used.
-/

namespace Torque.Transition

universe u v

variable {σ : Type u} {ε : Type v}

/-- The state before the event of a moment. -/
def stateAt (step : σ → ε → σ) (start : σ) (events : Nat → ε) : Nat → σ
  | 0 => start
  | n + 1 => step (stateAt step start events n) (events n)

variable {step : σ → ε → σ} {start : σ} {events : Nat → ε}

theorem stateAt_eq_run (n : Nat) :
    stateAt step start events n = run step start ((List.range n).map events) := by
  induction n with
  | zero => rfl
  | succ n ih =>
    rw [List.range_succ, List.map_append, run_append, ← ih]
    rfl

/-- What stays until an event is met by the event. -/
theorem meets (Stays : σ → Prop) (Occurs : ε → Prop) {n : Nat}
    (holds : Stays (stateAt step start events n))
    (stays : ∀ m, n ≤ m → Stays (stateAt step start events m) → ¬ Occurs (events m) →
      Stays (step (stateAt step start events m) (events m)))
    (occurs : ∃ m, n ≤ m ∧ Occurs (events m)) :
    ∃ m, n ≤ m ∧ Stays (stateAt step start events m) ∧ Occurs (events m) := by
  classical
  -- the first occurrence
  have first := Nat.find_spec occurs
  have before : ∀ m, n ≤ m → m < Nat.find occurs → ¬ Occurs (events m) := by
    intro m later early here
    exact Nat.find_min occurs early ⟨later, here⟩
  refine ⟨Nat.find occurs, first.1, ?_, first.2⟩
  have until_ : ∀ m, n ≤ m → m ≤ Nat.find occurs → Stays (stateAt step start events m) := by
    intro m later
    induction m, later using Nat.le_induction with
    | base => exact fun _ => holds
    | succ m later ih =>
      intro bound
      exact stays m later (ih (Nat.le_of_succ_le bound)) (before m later bound)
  exact until_ _ first.1 le_rfl

end Torque.Transition
