import Mathlib.Data.Set.Card

/-!
# Counting members by owner

Every member of a finite set has an owner, and a table says for each owner how many members
the set has.  The table stays right if it is changed by one, for the owner, together with a
member that enters or leaves the set.
-/

namespace Torque.Structure

open Function

universe u v

variable {α : Type u} {β : Type v}

/-- The table has the number of members of each owner. -/
structure Headcount (table : β → Nat) (owner : α → β) (members : Set α) : Prop where
  finite : members.Finite
  count : ∀ b, table b = {x | x ∈ members ∧ owner x = b}.ncard

namespace Headcount

variable {table : β → Nat} {owner : α → β} {members members' : Set α} {x : α}

theorem empty (owner : α → β) : Headcount (fun _ => 0) owner ∅ where
  finite := Set.finite_empty
  count := by simp

theorem congr (headcount : Headcount table owner members) (same : members' = members) :
    Headcount table owner members' :=
  same ▸ headcount

variable [DecidableEq β]

variable (headcount : Headcount table owner members)
include headcount

theorem insert (fresh : x ∉ members) :
    Headcount (update table (owner x) (table (owner x) + 1)) owner
      (Insert.insert x members) where
  finite := headcount.finite.insert x
  count := by
    intro b
    by_cases own : owner x = b
    · subst own
      have more : {y | y ∈ Insert.insert x members ∧ owner y = owner x} =
          Insert.insert x {y | y ∈ members ∧ owner y = owner x} :=
        Set.insert_inter_of_mem rfl
      rw [update_self, headcount.count, more,
        Set.ncard_insert_of_notMem (fun mem => fresh mem.1)
          (headcount.finite.subset fun _ owned => owned.1)]
    · have same : {y | y ∈ Insert.insert x members ∧ owner y = b} =
          {y | y ∈ members ∧ owner y = b} :=
        Set.insert_inter_of_notMem own
      rw [update_of_ne (Ne.symm own), headcount.count, same]

theorem remove (mem : x ∈ members) :
    Headcount (update table (owner x) (table (owner x) - 1)) owner
      (members \ {x}) where
  finite := headcount.finite.sdiff
  count := by
    intro b
    have less : {y | y ∈ members \ {x} ∧ owner y = b} =
        {y | y ∈ members ∧ owner y = b} \ {x} := by
      ext y
      exact and_right_comm
    rw [less]
    by_cases own : owner x = b
    · subst own
      have isIn : x ∈ {y | y ∈ members ∧ owner y = owner x} := ⟨mem, rfl⟩
      rw [update_self, headcount.count, Set.ncard_sdiff_singleton_of_mem isIn]
    · rw [update_of_ne (Ne.symm own), headcount.count, Set.sdiff_singleton_eq_self]
      exact fun isIn => own isIn.2

end Headcount

end Torque.Structure
