import Mathlib.Data.List.Basic

/-!
# Execution slot trackers

An `execution_slot_tracker` says which execution slots are occupied, and counts
those that are open.  The count is kept beside the slots; that it is the number of
free slots is part of the type.
-/

namespace Torque.Node

open List

/-- `OCCUPIED` is true, `FREE` is false. -/
structure ExecutionSlotTracker where
  slots : List Bool
  openCount : Int
  counted : openCount = slots.count false

namespace ExecutionSlotTracker

variable {index : Nat} (first last : Int) (count : Nat) (est : ExecutionSlotTracker)

@[ext]
theorem ext {est est' : ExecutionSlotTracker} (same : est.slots = est'.slots) : est = est' := by
  obtain ⟨slots, openCount, counted⟩ := est
  obtain ⟨slots', openCount', counted'⟩ := est'
  cases same
  cases counted
  cases counted'
  rfl

instance : DecidableEq ExecutionSlotTracker := fun est est' =>
  decidable_of_iff (est.slots = est'.slots) ⟨ext, congrArg slots⟩

/-- `execution_slot_tracker()`. -/
def empty : ExecutionSlotTracker :=
  ⟨[], 0, rfl⟩

/-- `execution_slot_tracker(size)`. -/
def ofSize (size : Nat) : ExecutionSlotTracker :=
  ⟨replicate size false, size, by simp⟩

section

variable (est : ExecutionSlotTracker)

/-- `get_total_execution_slots`. -/
def getTotalExecutionSlots : Nat :=
  est.slots.length

/-- `get_number_free`. -/
def getNumberFree : Int :=
  est.openCount

/-- `is_occupied`, for an index that is not negative. -/
def isOccupied (index : Nat) : Bool :=
  est.slots.getD index false

/-- `add_execution_slot`. -/
def addExecutionSlot : ExecutionSlotTracker :=
  ⟨est.slots ++ [false], est.openCount + 1, by simp [est.counted]⟩

/-- `mark_as_used`; `none` is `OUT_OF_RANGE`. -/
def markAsUsed (index : Int) (est : ExecutionSlotTracker) : Option ExecutionSlotTracker :=
  if index < 0 ∨ (est.slots.length : Int) ≤ index then none
  else if free : est.slots[index.toNat]? = some false then
    some
      { slots := est.slots.set index.toNat true
        openCount := est.openCount - 1
        counted := by
          obtain ⟨inside, isFree⟩ := List.getElem?_eq_some_iff.mp free
          have some : 0 < est.slots.count false :=
            count_pos_iff.mpr (isFree ▸ getElem_mem inside)
          rw [count_set inside, est.counted]
          simp [isFree]
          omega }
  else some est

/-- A slot is marked, and whether that is possible is not looked at. -/
def mark (index : Int) (est : ExecutionSlotTracker) : ExecutionSlotTracker :=
  (est.markAsUsed index).getD est

/-- Slots are added while there are no more than `last`. -/
def padTo (last : Int) (est : ExecutionSlotTracker) : ExecutionSlotTracker :=
  let more := (last + 1).toNat - est.slots.length
  ⟨est.slots ++ replicate more false, est.openCount + more, by simp [est.counted]⟩

/-- The indices of the occupied slots of a part of the array. -/
def occupiedFrom : Nat → List Bool → List Nat
  | _, [] => []
  | index, true :: slots => index :: occupiedFrom (index + 1) slots
  | index, false :: slots => occupiedFrom (index + 1) slots

/-- What `get_next_occupied_index` returns, one call after the other. -/
def occupied : List Nat :=
  occupiedFrom 0 est.slots

end

/-! ## Occupied slots -/

section

variable {est : ExecutionSlotTracker}

theorem isOccupied_eq_true_iff : est.isOccupied index = true ↔ est.slots[index]? = some true := by
  unfold isOccupied
  rw [getD_eq_getElem?_getD]
  cases est.slots[index]? with
  | none => simp
  | some slot => simp

theorem isOccupied_ofSize (size index : Nat) : (ofSize size).isOccupied index = false := by
  unfold isOccupied ofSize
  rw [getD_eq_getElem?_getD, getElem?_replicate]
  split <;> rfl

theorem lt_of_isOccupied (occupied : est.isOccupied index = true) :
    index < est.getTotalExecutionSlots :=
  (List.getElem?_eq_some_iff.mp (isOccupied_eq_true_iff.mp occupied)).1

theorem mem_occupiedFrom {start : Nat} {slots : List Bool} :
    index ∈ occupiedFrom start slots ↔ start ≤ index ∧ slots[index - start]? = some true := by
  induction slots generalizing start with
  | nil => simp [occupiedFrom]
  | cons slot slots ih =>
    have step : index ∈ occupiedFrom start (slot :: slots) ↔
        slot = true ∧ index = start ∨ index ∈ occupiedFrom (start + 1) slots := by
      cases slot <;> simp [occupiedFrom]
    rw [step, ih]
    rcases Nat.lt_trichotomy index start with before | rfl | behind
    · omega
    · have apart : ¬ index + 1 ≤ index := Nat.not_succ_le_self index
      simp [apart]
    · obtain ⟨more, rfl⟩ : ∃ more, index = start + (more + 1) := ⟨index - (start + 1), by omega⟩
      have rest : start + (more + 1) - (start + 1) = more := by omega
      have here : start ≤ start + (more + 1) := by omega
      have there : start + 1 ≤ start + (more + 1) := by omega
      rw [Nat.add_sub_cancel_left, rest, getElem?_cons_succ]
      simp [here, there]

theorem mem_occupied : index ∈ est.occupied ↔ est.isOccupied index = true := by
  rw [occupied, mem_occupiedFrom, isOccupied_eq_true_iff]
  simp

end

theorem pairwise_occupiedFrom (start : Nat) (slots : List Bool) :
    (occupiedFrom start slots).Pairwise (· < ·) := by
  induction slots generalizing start with
  | nil => exact .nil
  | cons slot slots ih =>
    cases slot with
    | false => exact ih (start + 1)
    | true =>
      refine pairwise_cons.mpr ⟨?_, ih (start + 1)⟩
      intro index mem
      exact (mem_occupiedFrom.mp mem).1

theorem pairwise_occupied : est.occupied.Pairwise (· < ·) :=
  pairwise_occupiedFrom 0 est.slots

/-! ## Marking -/

section

variable (index : Int) (est : ExecutionSlotTracker)

theorem slots_mark :
    (est.mark index).slots =
      if index < 0 then est.slots else est.slots.set index.toNat true := by
  unfold mark markAsUsed
  split
  · split
    · rfl
    · have behind : est.slots.length ≤ index.toNat := by omega
      exact (set_eq_of_length_le behind).symm
  · rename_i inside
    rw [if_neg fun negative => inside (Or.inl negative)]
    split
    · rfl
    · rename_i taken
      have within : index.toNat < est.slots.length := by omega
      have used : est.slots[index.toNat] = true := by
        rw [getElem?_eq_getElem within, Option.some.injEq, Bool.not_eq_false] at taken
        exact taken
      rw [← used, set_getElem_self]
      rfl

theorem getTotalExecutionSlots_mark :
    (est.mark index).getTotalExecutionSlots = est.getTotalExecutionSlots := by
  unfold getTotalExecutionSlots
  rw [slots_mark]
  split
  · rfl
  · exact length_set

theorem isOccupied_mark (other : Nat) :
    (est.mark index).isOccupied other = true ↔
      ((other : Int) = index ∧ other < est.getTotalExecutionSlots) ∨
        est.isOccupied other = true := by
  rw [isOccupied_eq_true_iff, isOccupied_eq_true_iff, slots_mark, getTotalExecutionSlots]
  split
  · have apart : (other : Int) ≠ index := by omega
    simp [apart]
  · by_cases same : index.toNat = other
    · subst same
      have cast : ((index.toNat : Nat) : Int) = index := by omega
      by_cases inside : index.toNat < est.slots.length
      · simp [inside, cast]
      · simp [inside]
    · have apart : (other : Int) ≠ index := by omega
      simp [same, apart]

end

/-! ## Adding slots -/

theorem getTotalExecutionSlots_padTo :
    (est.padTo last).getTotalExecutionSlots = max (last + 1).toNat est.getTotalExecutionSlots := by
  unfold padTo getTotalExecutionSlots
  rw [length_append, length_replicate]
  omega

variable (index : Nat)

theorem isOccupied_padTo : (est.padTo last).isOccupied index = est.isOccupied index := by
  unfold padTo isOccupied
  rw [getD_eq_getElem?_getD, getD_eq_getElem?_getD, getElem?_append]
  split
  · rfl
  · rename_i outside
    rw [getElem?_eq_none (Nat.le_of_not_lt outside), getElem?_replicate]
    split <;> rfl

/-! ## Marking a range -/

/-- So many slots from `first` on are marked, one after the other. -/
def markFrom (first : Int) : Nat → ExecutionSlotTracker → ExecutionSlotTracker
  | 0, est => est
  | count + 1, est => (markFrom first count est).mark (first + count)

/-- The slots from `first` to `last` are marked. -/
def markRange (first last : Int) (est : ExecutionSlotTracker) : ExecutionSlotTracker :=
  markFrom first (last + 1 - first).toNat est

theorem getTotalExecutionSlots_markFrom :
    (markFrom first count est).getTotalExecutionSlots = est.getTotalExecutionSlots := by
  induction count with
  | zero => rfl
  | succ count ih => exact (getTotalExecutionSlots_mark _ _).trans ih

theorem isOccupied_markFrom :
    (markFrom first count est).isOccupied index = true ↔
      (first ≤ index ∧ (index : Int) < first + count ∧ index < est.getTotalExecutionSlots) ∨
        est.isOccupied index = true := by
  induction count with
  | zero =>
    have none : ¬ (first ≤ index ∧ (index : Int) < first + (0 : Nat) ∧
        index < est.getTotalExecutionSlots) := by omega
    rw [markFrom, or_iff_right none]
  | succ count ih =>
    rw [markFrom, isOccupied_mark, ih, getTotalExecutionSlots_markFrom, ← or_assoc]
    apply or_congr_left
    omega

theorem isOccupied_markRange :
    (est.markRange first last).isOccupied index = true ↔
      (first ≤ index ∧ (index : Int) ≤ last ∧ index < est.getTotalExecutionSlots) ∨
        est.isOccupied index = true := by
  rw [markRange, isOccupied_markFrom]
  apply or_congr_left
  omega

end ExecutionSlotTracker

end Torque.Node
