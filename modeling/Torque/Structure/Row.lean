import Mathlib.Data.List.TakeWhile

/-!
# Runs in a row of places

A row is a list of places, some of which satisfy a predicate `p` (being free,
say).  A run is a maximal block of neighbouring places that satisfy it.  A
search that wants some places in one block looks at the first run, and what it
may stumble on later depends on the longest of the runs behind that one.
-/

namespace Torque.Structure

universe u

variable {α : Type u} {p : α → Bool} {place : α} {row : List α}

/-- The number of places at the beginning that satisfy `p`. -/
def leadingRun (p : α → Bool) (row : List α) : Nat :=
  (row.takeWhile p).length

/-- The length of the longest run. -/
def longestRun (p : α → Bool) : List α → Nat
  | [] => 0
  | place :: row => max (leadingRun p (place :: row)) (longestRun p row)

/-- The length of the first run. -/
def firstRun (p : α → Bool) (row : List α) : Nat :=
  leadingRun p (row.dropWhile fun place => !p place)

/-- What lies behind the first run. -/
def behindFirstRun (p : α → Bool) (row : List α) : List α :=
  (row.dropWhile fun place => !p place).dropWhile p

@[simp]
theorem leadingRun_nil (p : α → Bool) : leadingRun p [] = 0 :=
  rfl

@[simp]
theorem leadingRun_cons_of_pos (holds : p place = true) :
    leadingRun p (place :: row) = leadingRun p row + 1 := by
  simp [leadingRun, holds]

@[simp]
theorem leadingRun_cons_of_neg (fails : p place = false) : leadingRun p (place :: row) = 0 := by
  simp [leadingRun, fails]

variable (p : α → Bool) (row : List α)

theorem leadingRun_le_longestRun : leadingRun p row ≤ longestRun p row := by
  cases row with
  | nil => exact Nat.le_refl 0
  | cons place row => exact Nat.le_max_left _ _

theorem longestRun_le_cons (place : α) (row : List α) :
    longestRun p row ≤ longestRun p (place :: row) :=
  Nat.le_max_right _ _

/-- The longest run is the leading one or lies behind the places of the leading
one. -/
theorem longestRun_le_dropWhile :
    longestRun p row ≤ max (leadingRun p row) (longestRun p (row.dropWhile p)) := by
  induction row with
  | nil => exact Nat.zero_le _
  | cons place row ih =>
    cases holds : p place with
    | false => simp [holds]
    | true =>
      simp only [longestRun, leadingRun_cons_of_pos holds, List.dropWhile_cons_of_pos holds]
      omega

end Torque.Structure
