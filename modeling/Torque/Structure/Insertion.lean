import Mathlib.Algebra.Order.Ring.Int
import Mathlib.Data.List.DropRight
import Mathlib.Data.List.Nodup

/-!
# Inserting entries into a list

`insertBehind p x list` puts `x` behind the last entry that satisfies `p`, or
in front of the list if there is none.  It adds `x` and changes nothing else,
which is all that counting and membership arguments need; a list in ascending
order stays so if `x` is put behind all lower entries.
-/

namespace Torque.Insertion

open List

universe u

variable {α : Type u}

/-- `x` behind the last entry that satisfies `p`. -/
def insertBehind (p : α → Bool) (x : α) (list : List α) : List α :=
  list.rdropWhile (fun y => !p y) ++ x :: list.rtakeWhile (fun y => !p y)

theorem insertBehind_perm (p : α → Bool) (x : α) (list : List α) :
    (insertBehind p x list).Perm (x :: list) := by
  calc
    (insertBehind p x list).Perm
        (x :: (list.rdropWhile (fun y => !p y) ++ list.rtakeWhile (fun y => !p y))) :=
      perm_middle
    _ = x :: list := by rw [rdropWhile_append_rtakeWhile]

/-- `x` goes between the two parts if the first one ends with an entry that satisfies `p`, or is
empty, and no entry of the second one does. -/
theorem insertBehind_append {p : α → Bool} {front back : List α}
    (last : ∀ y ∈ front.getLast?, p y = true) (none : ∀ y ∈ back, p y = false) (x : α) :
    insertBehind p x (front ++ back) = front ++ x :: back := by
  have passed : ∀ y ∈ back.reverse, (!p y) = true := by simpa using none
  unfold insertBehind rdropWhile rtakeWhile
  rw [reverse_append, dropWhile_append_of_pos passed, takeWhile_append_of_pos passed]
  rcases front.eq_nil_or_concat with rfl | ⟨init, y, rfl⟩
  · simp
  · simp [last y (by simp)]

section

universe v

variable {κ : Type v} [LinearOrder κ] {rank : α → κ} {x : α} {list : List α}

section

variable (sorted : list.Pairwise fun a b => rank a ≤ rank b)
include sorted

/-- In a list in ascending order, the entries in front of the last lower one are lower. -/
theorem lt_of_mem_rdropWhile {y : α} (mem : y ∈ list.rdropWhile fun z => !decide (rank z < rank x)) :
    rank y < rank x := by
  have some := ne_nil_of_mem mem
  have last := rdropWhile_last_not (fun z => !decide (rank z < rank x)) list some
  rw [Bool.not_eq_true, Bool.not_eq_false', decide_eq_true_eq] at last
  have part := sorted.sublist
    ( rdropWhile_prefix (fun z => !decide (rank z < rank x)) list).sublist
  rw [← dropLast_append_getLast some] at mem part
  rcases mem_append.mp mem with before | isLast
  · have le := (pairwise_append.mp part).2.2 y before _ (mem_singleton_self _)
    exact lt_of_le_of_lt le last
  · rw [mem_singleton.mp isLast]
    exact last

/-- An entry of a list in ascending order is behind all lower ones. -/
theorem mem_rtakeWhile_of_sorted (mem : x ∈ list) :
    x ∈ list.rtakeWhile fun z => !decide (rank z < rank x) := by
  rw [← rdropWhile_append_rtakeWhile (p := fun z => !decide (rank z < rank x)) (l := list)]
    at mem
  rcases mem_append.mp mem with before | behind
  · exact absurd (lt_of_mem_rdropWhile sorted before) (lt_irrefl _)
  · exact behind

theorem insertBehind_sorted :
    (insertBehind (fun z => decide (rank z < rank x)) x list).Pairwise
      fun a b => rank a ≤ rank b := by
  have parts := sorted
  rw [← rdropWhile_append_rtakeWhile (p := fun z => !decide (rank z < rank x)) (l := list),
    pairwise_append] at parts
  obtain ⟨front, back, across⟩ := parts
  refine pairwise_append.mpr ⟨front, pairwise_cons.mpr ⟨?_, back⟩, ?_⟩
  · intro y mem
    have notLower := mem_rtakeWhile_imp mem
    rw [Bool.not_eq_true', decide_eq_false_iff_not] at notLower
    exact le_of_not_gt notLower
  · exact fun y before =>
      forall_mem_cons.mpr ⟨(lt_of_mem_rdropWhile sorted before).le, across y before⟩

end

end

end Torque.Insertion
