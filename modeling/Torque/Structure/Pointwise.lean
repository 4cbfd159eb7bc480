import Mathlib.Algebra.BigOperators.Group.List.Basic
import Mathlib.Algebra.Order.Ring.Int
import Mathlib.Data.List.Nodup
import Mathlib.Data.List.Pairwise

/-!
# Lists related entry by entry

Facts about `List.Forall₂`, and a comparison of two lists by the groups into
which a key divides them.
-/

namespace Torque.Structure

open List

universe u v w

variable {α : Type u} {β : Type v} {γ : Type w} {R : α → β → Prop} {xs : List α} {ys : List β}

/-- A relation between the entries of two lists is carried over to a third list
that belongs to the second one. -/
theorem forall₂_trans {R' : α → γ → Prop} {S : β → γ → Prop}
    (trans : ∀ x y z, R x y → S y z → R' x z) {zs : List γ} (first : List.Forall₂ R xs ys)
    (second : List.Forall₂ S ys zs) : List.Forall₂ R' xs zs := by
  induction first generalizing zs with
  | nil =>
    cases second
    exact List.Forall₂.nil
  | cons related _ ih =>
    cases second with
    | cons related' rest => exact List.Forall₂.cons (trans _ _ _ related related') (ih rest)

theorem forall_mem_right {p : β → Prop} (implied : ∀ x y, R x y → p y)
    (related : List.Forall₂ R xs ys) : ∀ y ∈ ys, p y := by
  induction related with
  | nil => exact forall_mem_nil _
  | cons one _ ih => exact forall_mem_cons.mpr ⟨implied _ _ one, ih⟩

/-- If nothing is repeated, no two lists have an entry in common. -/
theorem eq_of_nodup_flatMap {f : α → List β} (nodup : (xs.flatMap f).Nodup) {x x' : α} {y : β}
    (mem : x ∈ xs) (mem' : x' ∈ xs) (inside : y ∈ f x) (inside' : y ∈ f x') : x = x' := by
  by_contra unlike
  have : Std.Symm (Function.onFun List.Disjoint f) :=
    ⟨fun _ _ disjoint _ left right => disjoint right left⟩
  exact (nodup_flatMap.mp nodup).2.forall mem mem' unlike inside inside'

/-- Lists without duplicates that each stay within one of several disjoint lists
have no duplicates together. -/
theorem nodup_flatMap_of_within {f : α → List γ} {g : β → List γ}
    (within : List.Forall₂ (fun x y => (g y).Nodup ∧ ∀ c ∈ g y, c ∈ f x) xs ys)
    (distinct : (xs.flatMap f).Nodup) :
    (ys.flatMap g).Nodup ∧ ∀ c ∈ ys.flatMap g, c ∈ xs.flatMap f := by
  induction within with
  | nil => exact ⟨nodup_nil, fun _ mem => mem⟩
  | cons one _ ih =>
    rw [flatMap_cons, nodup_append'] at distinct
    obtain ⟨-, rest, disjoint⟩ := distinct
    obtain ⟨nodup, inside⟩ := ih rest
    constructor
    · rw [flatMap_cons, nodup_append']
      refine ⟨one.1, nodup, ?_⟩
      intro c mem mem'
      exact disjoint (one.2 c mem) (inside c mem')
    · intro c mem
      rw [flatMap_cons, mem_append] at mem ⊢
      rcases mem with here | later
      · exact Or.inl (one.2 c here)
      · exact Or.inr (inside c later)

section

variable [DecidableEq β] (key : α → β) (weight : α → Nat)

theorem filter_filter_ne {k other : β} (ne : k ≠ other) (xs : List α) :
    (xs.filter fun x => key x ≠ other).filter (fun x => key x = k) =
      xs.filter fun x => key x = k := by
  rw [filter_filter]
  apply filter_congr
  intro x _
  by_cases here : key x = k
  · simp [here, ne]
  · simp [here]

/-- A list that weighs no more than another group by group weighs no more in
all. -/
theorem sum_map_le_of_groups {ys : List α}
    (groups : ∀ k, ((xs.filter fun x => key x =
      k).map weight).sum ≤ ((ys.filter fun y => key y = k).map weight).sum) :
    (xs.map weight).sum ≤ (ys.map weight).sum := by
  -- the group of the first entry is taken out of both lists
  induction length : xs.length using Nat.strongRecOn generalizing xs ys with
  | ind n ih =>
    cases xs with
    | nil => exact Nat.zero_le _
    | cons x xs =>
      have shorter : ((x :: xs).filter fun y => key y ≠ key x).length < n := by
        rw [filter_cons_of_neg (by simp), ← length]
        exact Nat.lt_succ_of_le (length_filter_le _ _)
      have here := groups (key x)
      have others : (((x :: xs).filter fun y => key y ≠ key x).map weight).sum ≤
          ((ys.filter fun y => key y ≠ key x).map weight).sum := by
        apply ih _ shorter _ rfl
        intro k
        by_cases same : k = key x
        · subst same
          simp [filter_filter]
        · rw [filter_filter_ne key same, filter_filter_ne key same]
          exact groups k
      rw [← sum_map_filter_add_sum_map_filter_not (key · = key x) weight (x :: xs),
        ← sum_map_filter_add_sum_map_filter_not (key · = key x) weight ys]
      exact Nat.add_le_add here others

end

end Torque.Structure
