import Torque.Container.Linking

/-!
# Iterating over a container

A loop over an iterator follows the links from slot 0 back to slot 0.  Forwards
it meets the items of the list; backwards it meets them in the opposite order if
the link back from slot 0 leads to the last slot.
-/

namespace Torque.Container

open Torque.Structure List

universe u v

namespace ItemContainer

variable {κ : Type u} {T : Type v} {c : ItemContainer κ T}

/-- The links that an iterator follows. -/
def along (c : ItemContainer κ T) (reverse : Bool) : Nat → Nat :=
  if reverse then c.prev else c.next

theorem along_apply (c : ItemContainer κ T) (reverse : Bool) (i : Nat) :
    (if reverse then c.prev i else c.next i) = c.along reverse i := by
  cases reverse <;> rfl

/-- Following a path, a loop meets its items and ends. -/
theorem collect_path {reverse : Bool} {xs : List Nat} {list : List (Item κ T)} {a rounds : Nat}
    (path : Path (c.along reverse) a xs 0) (outside : 0 ∉ xs)
    (items : xs.map c.item = list.map some) (enough : xs.length < rounds) :
    c.collect rounds ⟨c.along reverse a, false, reverse⟩ = list.map Item.ptr := by
  induction xs generalizing a list rounds with
  | nil =>
    obtain rfl : list = [] := map_eq_nil_iff.mp items.symm
    obtain ⟨rounds, rfl⟩ := Nat.exists_eq_add_of_lt enough
    have ended : c.along reverse a = 0 := path
    simp [collect, getNextItem, ended, alwaysEmptyIndex]
  | cons x xs ih =>
    obtain ⟨first, rest⟩ := path
    obtain ⟨rounds, rfl⟩ : ∃ left, rounds = left + 1 := ⟨rounds - 1, by
      omega⟩
    rw [mem_cons, not_or] at outside
    obtain ⟨thing, list, rfl, held, others⟩ := map_eq_cons_iff.mp items.symm
    have onward := ih rest outside.2 others.symm (Nat.lt_of_succ_lt_succ enough)
    have nonzero : x ≠ alwaysEmptyIndex := Ne.symm outside.1
    simp [collect, getNextItem, first, nonzero, ← held, along_apply, onward]

namespace Represents

variable {order : List Nat} {list : List (Item κ T)} {rounds : Nat}

variable (rep : c.Represents order list)
include rep

/-- Forward iteration yields the items of the list. -/
theorem iterate_forward (enough : list.length < rounds) :
    c.iterate false rounds = list.map Item.ptr := by
  have path : Path (c.along false) 0 order 0 := rep.linked.forward
  exact collect_path path rep.zero_not_mem rep.items (rep.length_list ▸ enough)

/-- Reverse iteration yields them in the opposite order, if slot 0 leads back to
the last slot. -/
theorem iterate_reverse (mirrored : order ≠ [] → c.prev 0 = order.getLastD 0)
    (enough : list.length < rounds) : c.iterate true rounds = (list.map Item.ptr).reverse := by
  by_cases none : order = []
  · -- the slot that an emptied container leads to holds nothing
    subst none
    obtain rfl : list = [] := eq_nil_of_length_eq_zero rep.length_list
    obtain ⟨rounds, rfl⟩ := Nat.exists_eq_add_of_lt enough
    have vacant := rep.vacant (c.prev alwaysEmptyIndex) (not_mem_nil)
    by_cases ended : c.prev alwaysEmptyIndex = alwaysEmptyIndex
    · simp [iterate, getIterator, collect, getNextItem, ended]
    · simp [iterate, getIterator, collect, getNextItem, ended, vacant]
  · have path : Path (c.along true) 0 order.reverse 0 :=
      rep.linked.backward c.prev (mirrored none) fun _ _ => rfl
    have items : order.reverse.map c.item = list.reverse.map some := by
      rw [map_reverse, map_reverse, rep.items]
    rw [← map_reverse]
    refine collect_path path ?_ items ?_
    · rw [mem_reverse]
      exact rep.zero_not_mem
    · rw [length_reverse, ← rep.length_list]
      exact enough

end Represents

end ItemContainer

end Torque.Container
