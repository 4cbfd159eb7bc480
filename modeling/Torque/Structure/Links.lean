import Mathlib.Data.List.Nodup

/-!
# Entries linked in both directions

A list can be kept in two functions that lead from an entry to the next one and
back, closed to a ring by a sentinel.  `Path` says which entries one meets on
the way along a function, and `Linked` that both functions belong to the same
list.  Inserting and removing an entry each take two new links in either
direction.

The link that leads from the sentinel back to the last entry is left out of
`Linked`: a program may keep the last entry elsewhere.
-/

namespace Torque.Structure

open List

universe u

variable {ι : Type u}

/-- Along `link` from `a` one meets the entries in order, and then `b`. -/
def Path (link : ι → ι) : ι → List ι → ι → Prop
  | a, [], b => link a = b
  | a, x :: xs, b => link a = x ∧ Path link x xs b

section

variable {link link' : ι → ι} {a b : ι} {xs ys : List ι} {c x : ι} {after before : List ι} {z : ι}

/-- A path in two parts; the second one starts at the last entry of the first. -/
theorem path_append :
    Path link a (xs ++ ys) b ↔ Path link a xs (ys.headD b) ∧ Path link (xs.getLastD a) ys b := by
  induction xs generalizing a with
  | nil =>
    cases ys with
    | nil => simp [Path]
    | cons y ys => simp [Path]
  | cons x xs ih =>
    simp only [cons_append, Path, ih, and_assoc, getLastD_cons]

theorem path_start (path : Path link a xs b) : link a = xs.headD b := by
  cases xs with
  | nil => exact path
  | cons x xs => exact path.1

/-- Only the links of the entries in front of the end matter. -/
theorem path_congr (same : ∀ x ∈ a :: xs, link' x = link x) (path : Path link a xs b) :
    Path link' a xs b := by
  induction xs generalizing a with
  | nil =>
    rw [Path, same a mem_cons_self]
    exact path
  | cons x xs ih =>
    exact ⟨(same a mem_cons_self).trans path.1, ih (forall_mem_cons.mp same).2 path.2⟩

/-- The entries behind the start do not depend on the start. -/
theorem path_restart (starts : link' c = xs.headD b) (same : ∀ x ∈ xs, link' x = link x)
    (path : Path link a xs b) : Path link' c xs b := by
  cases xs with
  | nil => exact starts
  | cons x xs => exact ⟨starts, path_congr same path.2⟩

theorem getLastD_append_cons (xs ys : List ι) (x a : ι) :
    (xs ++ x :: ys).getLastD a = ys.getLastD x := by
  simp [getLastD_eq_getLast?, getLast?_append, getLast?_cons]

/-- Behind `x`, the last entry is `x` itself only if nothing follows. -/
theorem getLastD_eq_iff (fresh : x ∉ xs) : xs.getLastD x = x ↔ xs = [] := by
  cases xs with
  | nil => exact iff_of_true rfl rfl
  | cons y xs =>
    refine iff_of_false ?_ (cons_ne_nil y xs)
    intro same
    rw [getLastD_cons] at same
    exact fresh (same ▸ getLastD_mem_cons)

theorem path_redirect (nodup : (a :: xs).Nodup) (ends : link' (xs.getLastD a) = c)
    (same : ∀ x ∈ a :: xs, x ≠ xs.getLastD a → link' x = link x) (path : Path link a xs b) :
    Path link' a xs c := by
  induction xs generalizing a with
  | nil => exact ends
  | cons x xs ih =>
    obtain ⟨fresh, nodup⟩ := nodup_cons.mp nodup
    rw [getLastD_cons] at ends same
    refine ⟨(same a mem_cons_self ?_).trans path.1, ih nodup ends ?_ path.2⟩
    · intro equal
      exact fresh (equal ▸ getLastD_mem_cons)
    · exact (forall_mem_cons.mp same).2

variable (xs : List ι)

theorem headD_reverse (a : ι) : xs.reverse.headD a = xs.getLastD a := by
  rw [headD_eq_head?_getD, head?_reverse, getLastD_eq_getLast?]

theorem getLastD_reverse (a : ι) : xs.reverse.getLastD a = xs.headD a := by
  rw [headD_eq_head?_getD, getLastD_eq_getLast?, getLast?_reverse]

theorem headD_mem (a : ι) : xs.headD a ∈ a :: xs := by
  cases xs with
  | nil => exact mem_singleton_self a
  | cons x xs => exact mem_cons_of_mem _ mem_cons_self

/-- The way through the entries in front is led elsewhere; the links behind stay. -/
theorem path_rejoin {target ends : ι} (nodup : (z :: (before ++ after)).Nodup)
    (into : link' (before.getLastD z) = target)
    (same : ∀ y ∈ z :: (before ++ after), y ≠ before.getLastD z → link' y = link y)
    (path : Path link z before ends) :
    Path link' z before target ∧ ∀ y ∈ after, link' y = link y := by
  obtain ⟨outside, apart⟩ := nodup_cons.mp nodup
  constructor
  · refine path_redirect ?_ into ?_ path
    · exact nodup.sublist ((sublist_append_left before after).cons_cons z)
    · intro y mem
      apply same
      exact mem_cons.mpr ((mem_cons.mp mem).imp_right (mem_append_left after))
  · intro y mem
    apply same y (mem_cons_of_mem _ (mem_append_right before mem))
    rintro rfl
    rcases mem_cons.mp (getLastD_mem_cons (l := before) (a := z)) with sentinel | inside
    · rw [sentinel] at mem
      exact outside (mem_append_right before mem)
    · exact (nodup_append.mp apart).2.2 _ inside _ mem rfl

theorem path_insert (nodup : (z :: (before ++ after)).Nodup) (onward : link' x = after.headD z)
    (into : link' (before.getLastD z) = x)
    (same : ∀ y ∈ z :: (before ++ after), y ≠ before.getLastD z → link' y = link y)
    (path : Path link z (before ++ after) z) : Path link' z (before ++ x :: after) z := by
  obtain ⟨first, second⟩ := path_append.mp path
  obtain ⟨redirected, behind⟩ := path_rejoin nodup into same first
  exact path_append.mpr ⟨redirected, into, path_restart onward behind second⟩

theorem path_remove (nodup : (z :: (before ++ x :: after)).Nodup)
    (skips : link' (before.getLastD z) = after.headD z)
    (same : ∀ y ∈ z :: (before ++ after), y ≠ before.getLastD z → link' y = link y)
    (path : Path link z (before ++ x :: after) z) : Path link' z (before ++ after) z := by
  obtain ⟨first, second⟩ := path_append.mp path
  have shorter := nodup.sublist (((sublist_cons_self x after).append_left before).cons_cons z)
  obtain ⟨redirected, behind⟩ := path_rejoin shorter skips same first
  exact path_append.mpr ⟨redirected, path_restart skips behind second.2⟩

end

/-! ## Both directions -/

/-- The entries are linked in both directions around the sentinel `z`, the link
back from the sentinel left out. -/
structure Linked (next prev : ι → ι) (z : ι) (xs : List ι) : Prop where
  nodup : (z :: xs).Nodup
  forward : Path next z xs z
  backward : ∀ back : ι → ι, back z = xs.getLastD z → (∀ x ∈ xs, back x = prev x) →
    Path back z xs.reverse z

namespace Linked

variable {next prev next' prev' : ι → ι} {z x : ι} {xs before after : List ι}

theorem nil (ends : next z = z) : Linked next prev z [] where
  nodup := nodup_singleton z
  forward := ends
  backward _ ends _ := ends

section

variable [DecidableEq ι]

/-- The links back, closed at the sentinel. -/
def closed (prev : ι → ι) (z : ι) (xs : List ι) : ι → ι :=
  Function.update prev z (xs.getLastD z)

theorem closed_sentinel (prev : ι → ι) (z : ι) (xs : List ι) : closed prev z xs z = xs.getLastD z :=
  Function.update_self ..

theorem closed_entry (linked : Linked next prev z xs) {y : ι} (mem : y ∈ xs) (others : List ι) :
    closed prev z others y = prev y := by
  apply Function.update_of_ne
  rintro rfl
  exact (nodup_cons.mp linked.nodup).1 mem

theorem path_closed (linked : Linked next prev z xs) : Path (closed prev z xs) z xs.reverse z :=
  linked.backward _ (closed_sentinel prev z xs) fun _ mem => linked.closed_entry mem xs

/-- An entry is put between two others, or at an end. -/
theorem insert (linked : Linked next prev z (before ++ after)) (fresh : x ∉ z :: (before ++ after))
    (onward : next' x = after.headD z) (into : next' (before.getLastD z) = x)
    (same : ∀ y ∈ z :: (before ++ after), y ≠ before.getLastD z → next' y = next y)
    (onward' : prev' x = before.getLastD z)
    (into' : after ≠ [] → prev' (after.headD z) = x)
    (same' : ∀ y ∈ before ++ after, y ≠ after.headD z → prev' y = prev y) :
    Linked next' prev' z (before ++ x :: after) := by
  have nodup : (z :: (before ++ x :: after)).Nodup := by
    have moved : (x :: z :: (before ++ after)).Perm (z :: (before ++ x :: after)) :=
      (List.Perm.swap z x _).trans (perm_middle.symm.cons z)
    exact moved.nodup (nodup_cons.mpr ⟨fresh, linked.nodup⟩)
  refine ⟨nodup, path_insert linked.nodup onward into same linked.forward, ?_⟩
  intro back ends agrees
  rw [reverse_append, reverse_cons, append_assoc, singleton_append]
  have old := linked.path_closed
  rw [reverse_append] at old
  have turned : (z :: (after.reverse ++ before.reverse)).Perm (z :: (before ++ after)) := by
    rw [← reverse_append]
    exact (reverse_perm _).cons z
  refine path_insert (turned.nodup_iff.mpr linked.nodup) ?_ ?_ ?_ old
  · rw [headD_reverse, agrees x (by simp), onward']
  · rw [getLastD_reverse]
    cases after with
    | nil => simpa using ends
    | cons head rest =>
      rw [headD_cons, agrees head (by simp)]
      exact into' (cons_ne_nil _ _)
  · intro y mem apart
    rw [getLastD_reverse] at apart
    rcases mem_cons.mp (turned.mem_iff.mp mem) with rfl | inside
    · rw [closed_sentinel, ends]
      cases after with
      | nil => exact absurd rfl apart
      | cons head rest => simp [getLastD_eq_getLast?, getLast?_append]
    · rw [linked.closed_entry inside, ← same' y inside apart]
      apply agrees
      rcases mem_append.mp inside with left | right
      · exact mem_append_left _ left
      · exact mem_append_right _ (mem_cons_of_mem x right)

variable (linked : Linked next prev z (before ++ x :: after))
include linked

/-- An entry is taken out; its own links no longer matter. -/
theorem remove (skips : next' (before.getLastD z) = after.headD z)
    (same : ∀ y ∈ z :: (before ++ after), y ≠ before.getLastD z → next' y = next y)
    (skips' : after ≠ [] → prev' (after.headD z) = before.getLastD z)
    (same' : ∀ y ∈ before ++ after, y ≠ after.headD z → prev' y = prev y) :
    Linked next' prev' z (before ++ after) := by
  have fewer : (before ++ after).Sublist (before ++ x :: after) :=
    (sublist_cons_self x after).append_left before
  refine ⟨linked.nodup.sublist (fewer.cons_cons z),
    path_remove linked.nodup skips same linked.forward, ?_⟩
  intro back ends agrees
  rw [reverse_append]
  have old := linked.path_closed
  rw [reverse_append, reverse_cons, append_assoc, singleton_append] at old
  have turned : (z :: (after.reverse ++ x :: before.reverse)).Perm (z :: (before ++ x :: after)) := by
    have both := reverse_perm (before ++ x :: after)
    rw [reverse_append, reverse_cons, append_assoc, singleton_append] at both
    exact both.cons z
  refine path_remove (turned.nodup_iff.mpr linked.nodup) ?_ ?_ old
  · rw [getLastD_reverse, headD_reverse]
    cases after with
    | nil => simpa using ends
    | cons head rest =>
      rw [headD_cons, agrees head (by simp)]
      exact skips' (cons_ne_nil _ _)
  · intro y mem apart
    rw [getLastD_reverse] at apart
    rw [← reverse_append, mem_cons, mem_reverse] at mem
    rcases mem with rfl | inside
    · rw [closed_sentinel, ends]
      cases after with
      | nil => exact absurd rfl apart
      | cons head rest => simp [getLastD_eq_getLast?, getLast?_append]
    · rw [linked.closed_entry (fewer.subset inside), ← same' y inside apart]
      exact agrees y inside

/-- The link back leads to the entry in front. -/
theorem prev_eq : prev x = before.getLastD z := by
  have path := linked.path_closed
  rw [reverse_append, reverse_cons, append_assoc, singleton_append] at path
  have later := (path_append.mp path).2.2
  rw [← linked.closed_entry (mem_append_right before mem_cons_self)
    (before ++ x :: after), ← headD_reverse]
  exact path_start later

end

theorem next_eq (linked : Linked next prev z (before ++ x :: after)) : next x = after.headD z :=
  path_start (path_append.mp linked.forward).2.2

theorem next_sentinel (linked : Linked next prev z xs) : next z = xs.headD z :=
  path_start linked.forward

end Linked

end Torque.Structure
