import Mathlib.Data.List.Basic

/-!
# Memory blocks

A block of memory is the list of its cells.  `window` is the part between two offsets,
`store` writes data at an offset.  Both are used on a block that is known as a
concatenation: the offsets are then the lengths of its parts.
-/

namespace Torque.Structure

open List

universe u

variable {α : Type u}

/-- The cells from one offset up to another. -/
def window (memory : List α) (first last : Nat) : List α :=
  (memory.drop first).take (last - first)

/-- The block with the data written from the offset on. -/
def store (memory : List α) (offset : Nat) (data : List α) : List α :=
  memory.take offset ++ data ++ memory.drop (offset + data.length)

variable {memory before middle behind data : List α} {first last offset : Nat}

/-- A window on a part of the block is that part. -/
theorem window_append (starts : before.length = first)
    (ends : before.length + middle.length = last) :
    window (before ++ (middle ++ behind)) first last = middle := by
  subst starts ends
  rw [window, drop_left, Nat.add_sub_cancel_left, take_left]

/-- Data of the same length takes the place of a part of the block. -/
theorem store_append (starts : before.length = offset) (same : data.length = middle.length) :
    store (before ++ (middle ++ behind)) offset data = before ++ (data ++ behind) := by
  subst starts
  rw [store, take_left, same, ← drop_drop, drop_left, drop_left, append_assoc]

theorem length_store (inside : offset + data.length ≤ memory.length) :
    (store memory offset data).length = memory.length := by
  simp only [store, length_append, length_take, length_drop]
  omega

theorem length_window (inside : last ≤ memory.length) :
    (window memory first last).length = last - first := by
  rw [window, length_take, length_drop]
  omega

/-- A block that is long enough has a part of any length in front. -/
theorem exists_append_of_le {count : Nat} (enough : count ≤ memory.length) :
    ∃ front back, memory = front ++ back ∧ front.length = count :=
  ⟨memory.take count, memory.drop count, (take_append_drop _ _).symm,
    length_take_of_le enough⟩

end Torque.Structure
