import Torque.Structure.Links
import Mathlib.GroupTheory.Perm.Basic

/-!
# Lists as the cycles of a permutation

A permutation and its inverse lead from each entry to the next one and back.  Some entries are
heads, and the list of a head is met on the way round from the head to itself; every other
entry leads to itself.  To put an entry into a list, or to take it out, is to multiply the
permutation by a transposition, and to rename entries is to conjugate it.
-/

namespace Torque.Structure

open List

universe u

variable {ι : Type u}

/-- The lists of the heads are those that the permutation goes through. -/
structure Rings (heads : ι → Prop) (contents : ι → List ι) (σ : Equiv.Perm ι) : Prop where
  path : ∀ h, heads h → Path σ h (contents h) h
  nodup : ∀ h, heads h → (h :: contents h).Nodup
  apart : ∀ h k, heads h → heads k → h ≠ k → (h :: contents h).Disjoint (k :: contents k)
  alone : ∀ x, (∀ h, heads h → x ∉ h :: contents h) → σ x = x

/-- The entry is a head or in a list. -/
def Placed (heads : ι → Prop) (contents : ι → List ι) (x : ι) : Prop :=
  ∃ h, heads h ∧ x ∈ h :: contents h

theorem path_conj {link : ι → ι} {a b : ι} {xs : List ι} (f : Equiv.Perm ι)
    (path : Path link a xs b) : Path (fun x => f (link (f.symm x))) (f a) (xs.map f) (f b) := by
  induction xs generalizing a with
  | nil =>
    change f (link (f.symm (f a))) = f b
    rw [Equiv.symm_apply_apply]
    exact congrArg f path
  | cons x xs ih =>
    refine ⟨?_, ih path.2⟩
    change f (link (f.symm (f a))) = f x
    rw [Equiv.symm_apply_apply, path.1]

/-! ## Places in a list -/

section

variable [DecidableEq ι] {h x : ι} {xs : List ι}

theorem exists_behind (mem : x ∈ h :: xs) :
    ∃ before after, xs = before ++ after ∧ before.getLastD h = x ∧
      (h :: xs).idxOf x = before.length := by
  obtain ⟨passed, after, split, fresh⟩ := eq_append_cons_of_mem mem
  rw [split, idxOf_append_of_notMem fresh, idxOf_cons_self]
  cases passed with
  | nil =>
    obtain ⟨rfl, rfl⟩ := cons.inj split
    exact ⟨[], xs, rfl, rfl, rfl⟩
  | cons y ys =>
    obtain ⟨rfl, rfl⟩ := cons.inj split
    exact ⟨ys ++ [x], after, by simp, by simp, by simp⟩

/-- The place in front of an entry or the head. -/
theorem exists_before (mem : x ∈ h :: xs) :
    ∃ before after, xs = before ++ after ∧ after.headD h = x ∧
      (xs ++ [h]).idxOf x = before.length := by
  by_cases inside : x ∈ xs
  · obtain ⟨before, after, rfl, fresh⟩ := eq_append_cons_of_mem inside
    refine ⟨before, x :: after, rfl, rfl, ?_⟩
    simp [idxOf_append_of_notMem fresh]
  · obtain rfl := (mem_cons.mp mem).resolve_right inside
    refine ⟨xs, [], by simp, rfl, ?_⟩
    simp [idxOf_append_of_notMem inside]

omit [DecidableEq ι] in
theorem insertIdx_length (before after : List ι) (x : ι) :
    (before ++ after).insertIdx before.length x = before ++ x :: after := by
  induction before with
  | nil => exact insertIdx_zero
  | cons y before ih => rw [cons_append, length_cons, insertIdx_succ_cons, ih]; rfl

end

/-! ## Rings -/

namespace Rings

variable {heads : ι → Prop} {contents contents' : ι → List ι} {σ σ' : Equiv.Perm ι} {h x : ι}
  {k : ι} {after before : List ι}

section

variable (rings : Rings heads contents σ)
include rings

theorem congr (same : ∀ h, heads h → contents' h = contents h) : Rings heads contents' σ where
  path h here := by
    rw [same h here]
    exact rings.path h here
  nodup h here := by
    rw [same h here]
    exact rings.nodup h here
  apart h k here there differ := by
    rw [same h here, same k there]
    exact rings.apart h k here there differ
  alone x outside := by
    apply rings.alone
    intro h here
    rw [← same h here]
    exact outside h here

variable (here : heads h)
include here

theorem unique (there : heads k) (mem : x ∈ h :: contents h) (mem' : x ∈ k :: contents k) :
    h = k := by
  by_contra differ
  exact rings.apart h k here there differ mem mem'

theorem head_not_mem (there : heads k) : k ∉ contents h := by
  intro mem
  have same := rings.unique here there (mem_cons_of_mem _ mem) mem_cons_self
  subst same
  exact (nodup_cons.mp (rings.nodup h here)).1 mem

/-- An entry of a list does not lead to itself. -/
theorem apply_ne (mem : x ∈ contents h) : σ x ≠ x := by
  obtain ⟨before, after, split⟩ := append_of_mem mem
  have path := rings.path h here
  have nodup := rings.nodup h here
  rw [split] at path nodup
  have next := path_start (path_append.mp path).2.2
  obtain ⟨outside, inside⟩ := nodup_cons.mp nodup
  have fresh := (nodup_cons.mp (nodup_append.mp inside).2.1).1
  rw [next]
  cases after with
  | nil =>
    rintro rfl
    exact outside (by simp)
  | cons y after =>
    rintro rfl
    exact fresh mem_cons_self

theorem apply_getLastD (split : contents h = before ++ after) :
    σ (before.getLastD h) = after.headD h := by
  have path := rings.path h here
  rw [split] at path
  exact path_start (path_append.mp path).2

/-- Where the way round a list goes back to. -/
theorem symm_apply_headD (split : contents h = before ++ after) :
    σ.symm (after.headD h) = before.getLastD h := by
  rw [Equiv.symm_apply_eq, rings.apply_getLastD here split]

/-- One list is changed, and the permutation agrees on the others. -/
theorem change (others : ∀ k, heads k → k ≠ h → contents' k = contents k)
    (same : ∀ k, heads k → k ≠ h → ∀ y ∈ k :: contents k, σ' y = σ y)
    (path : Path σ' h (contents' h) h) (nodup : (h :: contents' h).Nodup)
    (apart : ∀ y ∈ contents' h, y ∈ contents h ∨ ¬ Placed heads contents y)
    (alone : ∀ y, (∀ k, heads k → y ∉ k :: contents' k) → σ' y = y) : Rings heads contents' σ' where
  path k there := by
    by_cases equal : k = h
    · subst equal
      exact path
    · rw [others k there equal]
      exact path_congr (same k there equal) (rings.path k there)
  nodup k there := by
    by_cases equal : k = h
    · subst equal
      exact nodup
    · rw [others k there equal]
      exact rings.nodup k there
  apart := by
    -- what is new in the changed list was in no other list
    have clear : ∀ k, heads k → k ≠ h → (h :: contents' h).Disjoint (k :: contents k) := by
      intro k there differ y mem mem'
      rcases mem_cons.mp mem with rfl | inside
      · exact rings.apart y k here there (Ne.symm differ) mem_cons_self mem'
      · rcases apart y inside with old | new
        · exact rings.apart h k here there (Ne.symm differ) (mem_cons_of_mem _ old) mem'
        · exact new ⟨k, there, mem'⟩
    intro k l there elsewhere differ
    by_cases first : k = h
    · subst first
      rw [others l elsewhere (Ne.symm differ)]
      exact clear l elsewhere (Ne.symm differ)
    · by_cases second : l = h
      · subst second
        rw [others k there first]
        exact fun y mem mem' => clear k there first mem' mem
      · rw [others k there first, others l elsewhere second]
        exact rings.apart k l there elsewhere differ
  alone := alone

end

variable [DecidableEq ι] {a : ι}

/-- The permutation is only changed at two entries. -/
theorem mul_swap_apply_of_ne {b y : ι} (σ : Equiv.Perm ι) (first : y ≠ a) (second : y ≠ b) :
    (σ * Equiv.swap a b) y = σ y := by
  rw [Equiv.Perm.mul_apply, Equiv.swap_apply_of_ne_of_ne first second]

theorem mul_swap_apply_left (σ : Equiv.Perm ι) (a b : ι) : (σ * Equiv.swap a b) a = σ b := by
  rw [Equiv.Perm.mul_apply, Equiv.swap_apply_left]

theorem mul_swap_apply_right (σ : Equiv.Perm ι) (a b : ι) : (σ * Equiv.swap a b) b = σ a := by
  rw [Equiv.Perm.mul_apply, Equiv.swap_apply_right]

/-- One entry enters or leaves a list, at the place behind another one. -/
theorem changeBehind (rings : Rings heads contents σ) (here : heads h)
    (others : ∀ k, heads k → k ≠ h → contents' k = contents k) (old : a ∈ h :: contents h)
    (kept : a ∈ h :: contents' h) (own : ∀ k, heads k → k ≠ h → x ∉ k :: contents k)
    (same : ∀ y, y ≠ x → (y ∈ contents' h ↔ y ∈ contents h))
    (path : Path (σ * Equiv.swap a x) h (contents' h) h) (nodup : (h :: contents' h).Nodup)
    (still : x ∉ contents' h → σ a = x) : Rings heads contents' (σ * Equiv.swap a x) := by
  apply rings.change here others _ path nodup
  · intro y mem
    by_cases moved : y = x
    · subst moved
      by_cases inside : y ∈ contents h
      · exact Or.inl inside
      · right
        rintro ⟨k, there, placed⟩
        by_cases equal : k = h
        · subst equal
          rcases mem_cons.mp placed with rfl | placed
          · exact (nodup_cons.mp nodup).1 mem
          · exact inside placed
        · exact own k there equal placed
    · exact Or.inl ((same y moved).mp mem)
  · intro y elsewhere
    by_cases moved : y = x
    · rw [moved, mul_swap_apply_right]
      exact still fun mem => elsewhere h here (mem_cons_of_mem _ (moved ▸ mem))
    · rw [mul_swap_apply_of_ne σ _ moved]
      · apply rings.alone
        intro k there
        by_cases equal : k = h
        · subst equal
          rw [mem_cons, ← same y moved, ← mem_cons]
          exact elsewhere k here
        · rw [← others k there equal]
          exact elsewhere k there
      · rintro rfl
        exact elsewhere h here kept
  · intro k there differ y mem
    apply mul_swap_apply_of_ne
    · rintro rfl
      exact differ (rings.unique there here mem old)
    · rintro rfl
      exact own k there differ mem

omit [DecidableEq ι] in
theorem getLastD_mem_append (before after : List ι) (h : ι) :
    before.getLastD h ∈ h :: (before ++ after) :=
  ((sublist_append_left before after).cons_cons h).subset getLastD_mem_cons

theorem insert (rings : Rings heads contents σ) (here : heads h)
    (split : contents h = before ++ after) (fresh : ¬ Placed heads contents x)
    (new : contents' h = before ++ x :: after)
    (others : ∀ k, heads k → k ≠ h → contents' k = contents k) :
    Rings heads contents' (σ * Equiv.swap (before.getLastD h) x) := by
  have nodup := rings.nodup h here
  have path := rings.path h here
  rw [split] at nodup path
  have outside : x ∉ h :: (before ++ after) := by
    rw [← split]
    exact fun mem => fresh ⟨h, here, mem⟩
  have still : σ x = x := rings.alone x fun k there mem => fresh ⟨k, there, mem⟩
  apply rings.changeBehind here others
  · rw [split]
    exact getLastD_mem_append before after h
  · rw [new]
    exact getLastD_mem_append before (x :: after) h
  · exact fun k there _ mem => fresh ⟨k, there, mem⟩
  · intro y moved
    simp [split, new, moved]
  · rw [new]
    apply path_insert nodup _ _ _ path
    · rw [mul_swap_apply_right]
      exact rings.apply_getLastD here split
    · rw [mul_swap_apply_left, still]
    · intro y mem differ
      apply mul_swap_apply_of_ne σ differ
      rintro rfl
      exact outside mem
  · rw [new]
    have moved : (x :: h :: (before ++ after)).Perm (h :: (before ++ x :: after)) :=
      (List.Perm.swap h x _).trans (perm_middle.symm.cons h)
    exact moved.nodup (nodup_cons.mpr ⟨outside, nodup⟩)
  · intro absent
    simp [new] at absent

/-- An entry is taken out of its list, and leads to itself. -/
theorem remove (rings : Rings heads contents σ) (here : heads h)
    (split : contents h = before ++ x :: after) (new : contents' h = before ++ after)
    (others : ∀ k, heads k → k ≠ h → contents' k = contents k) :
    Rings heads contents' (σ * Equiv.swap (before.getLastD h) x) := by
  have nodup := rings.nodup h here
  have path := rings.path h here
  rw [split] at nodup path
  have inside : x ∈ h :: contents h := by simp [split]
  have outside : x ∉ h :: (before ++ after) := by
    have moved : (h :: (before ++ x :: after)).Perm (x :: h :: (before ++ after)) :=
      (perm_middle.cons h).trans (List.Perm.swap x h _)
    exact (nodup_cons.mp (moved.nodup nodup)).1
  apply rings.changeBehind here others
  · rw [split]
    exact getLastD_mem_append before (x :: after) h
  · rw [new]
    exact getLastD_mem_append before after h
  · exact fun k there differ mem => differ (rings.unique there here mem inside)
  · intro y moved
    simp [split, new, moved]
  · rw [new]
    apply path_remove nodup _ _ path
    · rw [mul_swap_apply_left]
      exact path_start (path_append.mp path).2.2
    · intro y mem differ
      apply mul_swap_apply_of_ne σ differ
      rintro rfl
      exact outside mem
  · rw [new]
    exact nodup.sublist (((sublist_cons_self x after).append_left before).cons_cons h)
  · exact fun _ => rings.apply_getLastD here split

omit [DecidableEq ι] in
theorem conj (rings : Rings heads contents σ) (f : Equiv.Perm ι) :
    Rings (fun h => heads (f.symm h)) (fun h => (contents (f.symm h)).map f) (f * σ * f⁻¹) where
  path h here := by
    have renamed := path_conj f (rings.path (f.symm h) here)
    rw [Equiv.apply_symm_apply] at renamed
    exact renamed
  nodup h here := by
    have renamed := (rings.nodup (f.symm h) here).map f.injective
    rw [map_cons, Equiv.apply_symm_apply] at renamed
    exact renamed
  apart h k here there differ y mem mem' := by
    have back : ∀ l, y ∈ l :: (contents (f.symm l)).map f →
        f.symm y ∈ f.symm l :: contents (f.symm l) := by
      intro l inside
      rw [← Equiv.apply_symm_apply f l, ← map_cons, mem_map] at inside
      obtain ⟨x, inside, rfl⟩ := inside
      simpa using inside
    exact rings.apart _ _ here there (fun same => differ (f.symm.injective same)) (back h mem)
      (back k mem')
  alone y outside := by
    have still : σ (f.symm y) = f.symm y := by
      apply rings.alone
      intro h here mem
      apply outside (f h) (by rwa [Equiv.symm_apply_apply])
      rw [Equiv.symm_apply_apply, ← map_cons, mem_map]
      exact ⟨f.symm y, mem, Equiv.apply_symm_apply f y⟩
    change f (σ (f.symm y)) = y
    rw [still, Equiv.apply_symm_apply]

end Rings

end Torque.Structure
