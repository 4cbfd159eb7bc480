import Mathlib.Data.List.Nodup

/-!
# Tables of reusable slots

A slot table is an array whose entries either hold a key or are empty; an
entry is looked up by scanning for its key, and an emptied entry can be reused
for any key.  The table stands for a finite map as long as no two entries hold
the same key.

`key` projects an entry to the key it holds.  The lemmas say how writing one
entry changes the map.
-/

namespace Torque.SlotTable

open List

universe u v

variable {α : Type u} {κ : Type v} [DecidableEq κ] {key : α → Option κ} {k : κ}
  {slots before after : List α} {new old : α}

section

variable (key : α → Option κ) (slots : List α)

/-- The first entry that holds the key `k`. -/
def lookup (k : κ) : Option α :=
  slots.find? fun slot => decide (key slot = some k)

/-- No two entries hold the same key. -/
def Unique : Prop :=
  (slots.filterMap key).Nodup

/-- No entry holds the key `k`. -/
def Absent (k : κ) : Prop :=
  ∀ slot ∈ slots, key slot ≠ some k

end

theorem lookup_eq_none_iff : lookup key slots k = none ↔ Absent key slots k := by
  simp [lookup, Absent, find?_eq_none]

/-- The slots around the one that a search finds. -/
theorem exists_split_of_findIdx? {p : α → Bool} {i : Nat} (found : slots.findIdx? p = some i) :
    ∃ before slot after, slots = before ++ slot :: after ∧ before.length = i ∧ p slot = true ∧
      ∀ other ∈ before, ¬p other = true := by
  obtain ⟨within, holds, least⟩ := findIdx?_eq_some_iff_getElem.mp found
  refine ⟨slots.take i, slots[i], slots.drop (i + 1), ?_, length_take_of_le (Nat.le_of_lt within),
    holds, ?_⟩
  · rw [← drop_eq_getElem_cons within, take_append_drop]
  · intro other mem
    obtain ⟨j, lt, rfl⟩ := mem_take_iff_getElem.mp mem
    exact least j (by omega)

/-- Writing an entry does not affect a key held neither before nor after. -/
theorem lookup_write_of_ne (old_ne : key old ≠ some k) (new_ne : key new ≠ some k) :
    lookup key (before ++ new :: after) k = lookup key (before ++ old :: after) k := by
  simp [lookup, find?_append, old_ne, new_ne]

/-- A key that no other entry holds. -/
theorem lookup_middle (absent : Absent key (before ++ after) k) :
    lookup key (before ++ new :: after) k = if key new = some k then some new else none := by
  rw [← lookup_eq_none_iff] at absent
  unfold lookup at absent ⊢
  rw [find?_append, Option.or_eq_none_iff] at absent
  rw [find?_append, absent.1, find?_cons, absent.2]
  by_cases held : key new = some k <;> simp [held]

omit [DecidableEq κ] in
/-- The key of an entry is held by no other. -/
theorem unique_middle_iff :
    Unique key (before ++ new :: after) ↔
      Unique key (before ++ after) ∧ ∀ k, key new = some k → Absent key (before ++ after) k := by
  unfold Unique
  cases held : key new with
  | none => simp [filterMap_append, held]
  | some k =>
    rw [filterMap_append, filterMap_cons_some held, nodup_middle, nodup_cons, ← filterMap_append,
      and_comm]
    have absent : Absent key (before ++ after) k ↔ k ∉ (before ++ after).filterMap key := by
      simp only [Absent, mem_filterMap, not_exists, not_and, ne_eq]
    simp only [Option.some.injEq, forall_eq', absent]

end Torque.SlotTable
