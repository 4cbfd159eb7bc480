import Mathlib.Data.List.Nodup
import Mathlib.Data.List.Perm.Basic

/-!
# Counters beside a list

A list is kept with the number of its entries and, for each class of entries, the number of
entries in it.  `Tally` says that these counters agree with the list.  It is kept by adding
an entry, by taking one away, and by moving an entry of the list to another class together
with its count.
-/

namespace Torque.Structure

open Function List

universe u v

variable {α : Type u} {β : Type v} [DecidableEq β] {list : List α}

/-- One class has gained or lost entries. -/
def adjust (counts : β → Int) (b : β) (change : Int) : β → Int :=
  update counts b (counts b + change)

theorem adjust_apply (counts : β → Int) (b other : β) (change : Int) :
    adjust counts b change other = counts other + if b = other then change else 0 := by
  unfold adjust
  by_cases same : other = b
  · subst same
    rw [update_self, if_pos rfl]
  · rw [update_of_ne same, if_neg (Ne.symm same), Int.add_zero]

/-- The number of entries of a list and of each class in it. -/
structure Tally (list : List α) (kind : α → β) (total : Int) (counts : β → Int) : Prop where
  total : total = list.length
  counts : ∀ b, counts b = list.countP fun x => kind x = b

namespace Tally

variable {list list' : List α} {kind : α → β} {total : Int} {counts counts' : β → Int} {x : α}
  {b : β}

theorem nil (kind : α → β) : Tally [] kind 0 fun _ => 0 :=
  ⟨rfl, fun _ => rfl⟩

variable (tally : Tally list kind total counts)
include tally

theorem congr (same : ∀ b, counts' b = counts b) : Tally list kind total counts' :=
  ⟨tally.total, fun b => (same b).trans (tally.counts b)⟩

theorem insert (perm : list'.Perm (x :: list)) :
    Tally list' kind (total + 1) (adjust counts (kind x) 1) where
  total := by rw [perm.length_eq, tally.total, length_cons, Int.natCast_succ]
  counts := by
    intro b
    rw [adjust_apply, tally.counts, perm.countP_eq, countP_cons]
    by_cases same : kind x = b
    · simp [same]
    · simp [same]

theorem erase [BEq α] [LawfulBEq α] (mem : x ∈ list) :
    Tally (list.erase x) kind (total - 1) (adjust counts (kind x) (-1)) where
  total := by
    have length := (perm_cons_erase mem).length_eq
    rw [length_cons] at length
    rw [tally.total, length, Int.natCast_succ, Int.add_sub_cancel]
  counts := by
    intro b
    rw [adjust_apply, tally.counts, (perm_cons_erase mem).countP_eq, countP_cons]
    by_cases same : kind x = b
    · rw [if_pos same, if_pos (decide_eq_true same), Int.natCast_succ, Int.add_neg_cancel_right]
    · simp [same]

/-- The classes of entries that are not in the list do not matter. -/
theorem update_of_not_mem [DecidableEq α] (absent : x ∉ list) :
    Tally list (update kind x b) total counts where
  total := tally.total
  counts := by
    intro c
    rw [tally.counts]
    congr 1
    apply countP_congr
    intro y mem
    rw [update_of_ne (ne_of_mem_of_not_mem mem absent)]

/-- An entry is moved to another class, together with its count. -/
theorem update_of_mem [DecidableEq α] (nodup : list.Nodup) (mem : x ∈ list) :
    Tally list (update kind x b) total (adjust (adjust counts (kind x) (-1)) b 1) := by
  have removed := (tally.erase mem).update_of_not_mem (b := b) nodup.not_mem_erase
  have added := removed.insert (perm_cons_erase mem)
  rw [update_self, Int.sub_add_cancel] at added
  exact added

theorem total_pos (mem : x ∈ list) : 0 < total := by
  rw [tally.total]
  exact Int.natCast_pos.2 (length_pos_of_mem mem)

theorem counts_pos (mem : x ∈ list) : 0 < counts (kind x) := by
  rw [tally.counts]
  exact Int.natCast_pos.2 (countP_pos_iff.2 ⟨x, mem, decide_eq_true rfl⟩)

end Tally

theorem countP_turned [DecidableEq α] {p p' : α → Bool} {x : α}
    (nodup : list.Nodup) (mem : x ∈ list) (same : ∀ y, y ≠ x → p' y = p y) :
    list.countP p' + (p x).toNat = list.countP p + (p' x).toNat := by
  have others : (list.erase x).countP p' = (list.erase x).countP p := by
    apply countP_congr
    intro y here
    rw [same y fun equal => nodup.not_mem_erase (equal ▸ here)]
  have perm := perm_cons_erase mem
  rw [perm.countP_eq p', perm.countP_eq p, countP_cons, countP_cons, others]
  cases p x <;> cases p' x <;> simp

/-- An entry of a list is replaced: the count changes by what the two entries count. -/
theorem countP_set_add (p : α → Bool) {i : Nat} {old : α} (new : α) (found : list[i]? = some old) :
    (list.set i new).countP p + (p old).toNat = list.countP p + (p new).toNat := by
  obtain ⟨inside, rfl⟩ := List.getElem?_eq_some_iff.1 found
  have counted : p list[i] = true → 0 < list.countP p := fun holds =>
    countP_pos_iff.2 ⟨_, getElem_mem inside, holds⟩
  rw [countP_set inside]
  cases here : p list[i] with
  | true =>
    have pos := counted here
    cases p new <;> simp <;> omega
  | false => cases p new <;> simp

end Torque.Structure
