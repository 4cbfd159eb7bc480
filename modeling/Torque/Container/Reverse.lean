import Torque.Container.Refinement
import Torque.Transition.Run

/-!
# Reverse iteration

`pop_back` and a reverse iterator start from the link back of slot 0.  A removal
at the end does not write it, so it is right only as long as no call takes out
the last one of several items.
-/

namespace Torque.Container

open Torque.Structure Torque.Transition

universe u v

variable {κ : Type u} {T : Type v} [DecidableEq κ]

namespace ItemContainer

/-- A call of a public function, `pop_back` included. -/
inductive EndCommand (κ : Type u) (T : Type v) where
  | call (command : Command κ T)
  | popBack
  deriving DecidableEq

/-- The container after a call; none after a null pointer was dereferenced. -/
def execEnds : Option (ItemContainer κ T) → EndCommand κ T → Option (ItemContainer κ T)
  | none, _ => none
  | some c, .call command => some (c.exec command).2
  | some c, .popBack => c.popBack.map Prod.snd

/-- The items that so many calls of `pop_back` return. -/
def popBacks : Nat → ItemContainer κ T → Option (List T)
  | 0, _ => some []
  | n + 1, c =>
    match c.popBack with
    | none => none
    | some (none, _) => some []
    | some (some it, c) => (popBacks n c).map (it :: ·)

/-- The call does not take out the last one of several items, and `pop_back` is
not called after the only item was taken out. -/
def KeepsEnd : Option (ItemContainer κ T) → EndCommand κ T → Prop
  | none, _ => True
  | some c, .call command => c.SparesLast command
  | some c, .popBack => c.num = 1 ∨ c.num = 0 ∧ c.prev 0 = 0

instance (state : Option (ItemContainer κ T)) (command : EndCommand κ T) :
    Decidable (KeepsEnd state command) := by
  cases state <;> cases command <;> unfold KeepsEnd <;> infer_instance

namespace Appended

variable {c : ItemContainer κ T} {before : List Nat} {front : List (Item κ T)} {thing : Item κ T}
  {index : Nat}

variable (rep : c.Appended (before ++ [index]) (front ++ [thing]))
  (mirrored : c.Mirrored (before ++ [index]))
include rep mirrored

/-- `pop_back` returns the last item, if slot 0 leads back to it. -/
theorem popBack_eq : c.popBack = some (some thing.ptr, c.removed index) := by
  have cut : before.length = front.length := by
    simpa using rep.length_list.symm
  have back : c.prev 0 = index := by
    rw [mirrored (by simp), getLastD_append_cons]
    rfl
  have nonzero : index ≠ 0 := rep.ne_zero_of_mem (by simp)
  have held : c.item index = some thing := rep.item_eq cut
  unfold ItemContainer.popBack
  simp [alwaysEmptyIndex, back, nonzero, held]

/-- After the last item was taken out, slot 0 still leads to its slot. -/
theorem popBack_removed : (c.removed index).popBack = none := by
  have cut : before.length = front.length := by
    simpa using rep.length_list.symm
  have back : (c.removed index).prev 0 = index := by
    rw [rep.toRepresents.prev_zero_removed cut,
      if_neg fun both => both.1 (rep.last_split.mpr rfl), mirrored (by simp), getLastD_append_cons]
    rfl
  have nonzero : index ≠ 0 := rep.ne_zero_of_mem (by simp)
  have left := rep.removed cut
  have vacant : (c.removed index).item index = none := by
    apply left.vacant
    rw [List.append_nil]
    intro mem
    have nodup := rep.nodup
    rw [List.nodup_append] at nodup
    exact nodup.2.2 index mem index (List.mem_singleton_self index) rfl
  unfold ItemContainer.popBack
  simp [alwaysEmptyIndex, back, nonzero, vacant]

end Appended

theorem popBack_closed {c : ItemContainer κ T} (closed : c.prev 0 = 0) :
    c.popBack = some (none, c) := by
  unfold ItemContainer.popBack
  simp [alwaysEmptyIndex, closed]

/-- The container was only appended to, and slot 0 leads back to its last slot. -/
def InOrder (state : Option (ItemContainer κ T)) : Prop :=
  ∃ c order list, state = some c ∧ c.Appended order list ∧ c.Mirrored order

theorem inOrder_execEnds {state : Option (ItemContainer κ T)} (inOrder : InOrder state)
    {command : EndCommand κ T} (keeps : KeepsEnd state command) :
    InOrder (execEnds state command) := by
  obtain ⟨c, order, list, rfl, rep, mirrored⟩ := inOrder
  cases command with
  | call command =>
    obtain ⟨order', list', -, appended, stays⟩ := rep.simulated command
    exact ⟨_, order', list', rfl, appended, stays keeps mirrored⟩
  | popBack =>
    have num := rep.num
    have length := rep.length_list
    rcases keeps with one | ⟨zero, closed⟩
    · obtain ⟨index, rfl⟩ := List.length_eq_one_iff.mp (num.symm.trans one)
      obtain ⟨thing, rfl⟩ := List.length_eq_one_iff.mp length
      have split : c.Appended ([] ++ [index]) ([] ++ [thing]) := rep
      refine ⟨c.removed index, [], [], ?_, split.removed rfl, fun some => absurd rfl some⟩
      have popped := split.popBack_eq mirrored
      simp only [execEnds, popped, Option.map_some]
    · obtain rfl : order = [] := List.eq_nil_of_length_eq_zero (num.symm.trans zero)
      refine ⟨c, [], list, ?_, rep, mirrored⟩
      simp only [execEnds, popBack_closed closed, Option.map_some]

/-- As long as no call takes out the last one of several items, a reverse
iterator visits the items of forward iteration in the opposite order.  As many
calls of `pop_back` as there are items do so exactly if there is at most one:
the first call of several takes out the last item. -/
theorem reverse_mirrors_forward (commands : List (EndCommand κ T))
    (admissible : Admissible execEnds KeepsEnd (some empty) commands) :
    ∃ c, run execEnds (some empty) commands = some c ∧
      (∀ rounds, c.count < rounds →
        c.iterate true rounds = (c.iterate false rounds).reverse) ∧
      (popBacks c.count c = some (c.iterate false (c.count + 1)).reverse ↔ c.count ≤ 1) := by
  have initial : InOrder (some (empty : ItemContainer κ T)) :=
    ⟨empty, [], [], rfl, appended_empty, fun some => absurd rfl some⟩
  obtain ⟨c, order, list, reached, rep, mirrored⟩ : InOrder (run execEnds (some empty) commands) :=
    invariant InOrder initial (fun _ _ holds keeps => inOrder_execEnds holds keeps) admissible
  have count : c.count = list.length := rep.num.trans rep.length_list.symm
  have forward : ∀ rounds, list.length < rounds → c.iterate false rounds = list.map Item.ptr :=
    fun rounds enough => rep.iterate_forward enough
  refine ⟨c, reached, ?_, ?_⟩
  · intro rounds enough
    rw [count] at enough
    rw [forward rounds enough]
    exact rep.iterate_reverse mirrored enough
  · rw [count, forward _ (Nat.lt_succ_self _)]
    rcases List.eq_nil_or_concat list with rfl | ⟨front, thing, rfl⟩
    · exact iff_of_true rfl (Nat.zero_le 1)
    · obtain ⟨before, index, rfl⟩ : ∃ before index, order = before ++ [index] := by
        rcases List.eq_nil_or_concat order with rfl | ⟨before, index, rfl⟩
        · have length := rep.length_list
          simp at length
        · exact ⟨before, index, List.concat_eq_append ..⟩
      rw [List.concat_eq_append] at rep ⊢
      have first := rep.popBack_eq mirrored
      have second := rep.popBack_removed mirrored
      rcases front with _ | ⟨other, front⟩
      · apply iff_of_true _ (Nat.le_refl 1)
        simp [popBacks, first]
      · apply iff_of_false
        · simp [popBacks, first, second]
        · simp

/-- The first of two items is removed. -/
theorem reverse_mirrors_forward_pair :
    Admissible execEnds KeepsEnd (some (empty : ItemContainer Nat Nat))
        [.call (.insert true 10 1 false), .call (.insert true 20 2 false), .call (.remove 1)] ∧
      ∃ c : ItemContainer Nat Nat, run execEnds (some empty)
          [.call (.insert true 10 1 false), .call (.insert true 20 2 false),
            .call (.remove 1)] = some c ∧
        (∀ rounds, c.count < rounds →
          c.iterate true rounds = (c.iterate false rounds).reverse) ∧
        (popBacks c.count c = some (c.iterate false (c.count + 1)).reverse ↔ c.count ≤ 1) :=
  ⟨by decide +kernel, reverse_mirrors_forward _ (by decide +kernel)⟩

/-- The second of two items is removed; reverse iteration then visits nothing. -/
theorem reverse_misses_first_item :
    ¬ ∀ (commands : List (EndCommand Nat Nat)) (c : ItemContainer Nat Nat),
      run execEnds (some empty) commands = some c →
        c.iterate true (c.count + 1) = (c.iterate false (c.count + 1)).reverse ∧
          popBacks c.count c = some (c.iterate false (c.count + 1)).reverse := by
  intro always
  have mirrored := always
    [.call (.insert true 10 1 false), .call (.insert true 20 2 false), .call (.remove 2)] _ rfl
  exact absurd mirrored.1 (by decide +kernel)

end ItemContainer

end Torque.Container
