import Torque.Container.Iteration
import Torque.Transition.Refinement
import Mathlib.Logic.Equiv.Basic

/-!
# Containers as ordered association lists

What a container is for is said by `Listing.Step`: a list of items with different
ids, on which insertion appends, removal deletes, and a replacing insertion does
both.  A container that is only appended to, which keeps `last` at its last
slot, refines it.
-/

namespace Torque.Container

open Torque.Structure Torque.Transition Function List

universe u v

variable {κ : Type u} {T : Type v} [DecidableEq κ]

/-! ## Commands -/

/-- A call of a public function. -/
inductive Command (κ : Type u) (T : Type v) where
  | insert (granted : Bool) (it : T) (id : κ) (replace : Bool)
  | remove (id : κ)
  | find (id : κ)
  | pop
  | swap (id1 id2 : κ)
  | clear
  deriving DecidableEq

/-- What the call returns. -/
inductive Answer (T : Type v) where
  | flag (done : Bool)
  | value (it : Option T)
  | nothing
  deriving DecidableEq

namespace ItemContainer

/-- The call. -/
def exec (c : ItemContainer κ T) : Command κ T → Answer T × ItemContainer κ T
  | .insert granted it id replace =>
    let done := c.insert granted it id replace
    (.flag done.1, done.2)
  | .remove id =>
    let done := c.remove id
    (.flag done.1, done.2)
  | .find id => (.value (c.find id), c)
  | .pop =>
    let done := c.pop
    (.value done.1, done.2)
  | .swap id1 id2 =>
    let done := c.swap id1 id2
    (.flag done.1, done.2)
  | .clear => (.nothing, c.clear)

end ItemContainer

/-! ## Ordered association lists -/

namespace Listing

/-- The ids, in order. -/
def ids (list : List (Item κ T)) : List κ :=
  list.map Item.id

/-- The item of the id is deleted. -/
def erase (id : κ) (list : List (Item κ T)) : List (Item κ T) :=
  list.filter fun thing => thing.id ≠ id

/-- The value of the item with the id. -/
def lookup (id : κ) (list : List (Item κ T)) : Option T :=
  (list.find? fun thing => thing.id = id).map Item.ptr

/-- Two items change places. -/
def exchange (x y thing : Item κ T) : Item κ T :=
  if thing.id = x.id then y else if thing.id = y.id then x else thing

/-- What a call may answer, and the list it leaves. -/
inductive Step : List (Item κ T) → Command κ T → Answer T → List (Item κ T) → Prop
  | append {list : List (Item κ T)} {id : κ} (fresh : id ∉ ids list) (granted : Bool) (it : T)
      (replace : Bool) :
      Step list (.insert granted it id replace) (.flag true) (list ++ [⟨id, it⟩])
  | replace {list : List (Item κ T)} {id : κ} (listed : id ∈ ids list) (granted : Bool) (it : T) :
      Step list (.insert granted it id true) (.flag true) (erase id list ++ [⟨id, it⟩])
  | keep {list : List (Item κ T)} {id : κ} (listed : id ∈ ids list) (granted : Bool) (it : T) :
      Step list (.insert granted it id false) (.flag false) list
  | noMemory {list : List (Item κ T)} {id : κ} (fresh : id ∉ ids list) (it : T)
      (replace : Bool) : Step list (.insert false it id replace) (.flag false) list
  | remove {list : List (Item κ T)} {id : κ} (listed : id ∈ ids list) :
      Step list (.remove id) (.flag true) (erase id list)
  | notRemoved {list : List (Item κ T)} {id : κ} (fresh : id ∉ ids list) :
      Step list (.remove id) (.flag false) list
  | find (list : List (Item κ T)) (id : κ) : Step list (.find id) (.value (lookup id list)) list
  | pop (thing : Item κ T) (list : List (Item κ T)) :
      Step (thing :: list) .pop (.value (some thing.ptr)) list
  | notPopped : Step [] .pop (.value none) []
  | swap {list : List (Item κ T)} {x y : Item κ T} (first : x ∈ list) (second : y ∈ list)
      (apart : x.id ≠ y.id) :
      Step list (.swap x.id y.id) (.flag true) (list.map (exchange x y))
  | notSwapped {list : List (Item κ T)} {id1 id2 : κ}
      (either : id1 ∉ ids list ∨ id2 ∉ ids list ∨ id1 = id2) :
      Step list (.swap id1 id2) (.flag false) list
  | clear (list : List (Item κ T)) : Step list .clear .nothing []

theorem erase_middle {front back : List (Item κ T)} {thing : Item κ T}
    (nodup : (ids (front ++ thing :: back)).Nodup) :
    erase thing.id (front ++ thing :: back) = front ++ back := by
  simp only [ids, map_append, map_cons] at nodup
  have apart := nodup_cons.mp (nodup_middle.mp nodup)
  have others : ∀ other ∈ front ++ back, other.id ≠ thing.id := by
    intro other mem same
    apply apart.1
    rw [← same, ← map_append]
    exact mem_map_of_mem mem
  unfold erase
  rw [filter_append, filter_cons_of_neg (by simp), ← filter_append, filter_eq_self]
  intro other mem
  simpa using others other mem

theorem id_exchange (x y thing : Item κ T) :
    (exchange x y thing).id = Equiv.swap x.id y.id thing.id := by
  unfold exchange
  rw [Equiv.swap_apply_def]
  split
  · rfl
  · split <;> rfl

omit [DecidableEq κ] in
theorem exists_item_iff {held : Option (Item κ T)} {id : κ} :
    (∃ ptr, held = some ⟨id, ptr⟩) ↔ held.map Item.id = some id := by
  constructor
  · rintro ⟨ptr, rfl⟩
    rfl
  · intro mapped
    obtain ⟨thing, rfl, rfl⟩ := Option.map_eq_some_iff.mp mapped
    exact ⟨thing.ptr, rfl⟩

end Listing

namespace ItemContainer.Represents

open Listing

variable {c : ItemContainer κ T} {order : List Nat} {list : List (Item κ T)}

omit [DecidableEq κ] in
theorem ids_nodup (rep : c.Represents order list) : (ids list).Nodup := by
  have held : order.map (fun i => (c.item i).map Item.id) = (ids list).map some := by
    have mapped := congrArg (List.map (Option.map Item.id)) rep.items
    simpa [ids, comp_def] using mapped
  apply List.Nodup.of_map some
  rw [← held]
  apply rep.nodup.map_on
  intro i here j there same
  obtain ⟨x, heldX⟩ := Option.isSome_iff_exists.mp (rep.item_isSome.mpr here)
  obtain ⟨y, heldY⟩ := Option.isSome_iff_exists.mp (rep.item_isSome.mpr there)
  rw [heldX, heldY] at same
  have id : x.id = y.id := Option.some.inj same
  have first := (rep.mapped x.id i (rep.ne_zero_of_mem here)).mpr ⟨x.ptr, heldX⟩
  have second := (rep.mapped y.id j (rep.ne_zero_of_mem there)).mpr ⟨y.ptr, heldY⟩
  rw [← first, ← second, id]

omit [DecidableEq κ] in
theorem find_listed {front back : List (Item κ T)} {thing : Item κ T}
    (rep : c.Represents order (front ++ thing :: back)) : c.find thing.id = some thing.ptr := by
  obtain ⟨before, i, after, rfl, cut⟩ := rep.exists_order
  have here : c.map thing.id = i := rep.map_eq cut
  have nonzero : i ≠ 0 := rep.ne_zero_of_mem (by simp)
  unfold ItemContainer.find
  simp only [here, alwaysEmptyIndex, nonzero, if_false, rep.item_eq cut, Option.map_some]

variable (rep : c.Represents order list)
include rep

theorem find_eq (id : κ) : c.find id = lookup id list := by
  unfold Listing.lookup
  by_cases unknown : c.map id = 0
  · have unlisted := rep.map_eq_zero_iff.mp unknown
    have none : (list.find? fun thing => thing.id = id) = none := by
      rw [find?_eq_none]
      intro thing mem same
      exact unlisted (mem_map.mpr ⟨thing, mem, of_decide_eq_true same⟩)
    rw [none]
    exact if_pos unknown
  · obtain ⟨before, after, front, ptr, back, placed, rfl, cut⟩ := rep.exists_split unknown
    have others : ∀ thing ∈ front, ¬ thing.id = id := by
      intro thing mem same
      have nodup := rep.ids_nodup
      simp only [ids, map_append, map_cons] at nodup
      have apart := (nodup_cons.mp (nodup_middle.mp nodup)).1
      exact apart (mem_append_left _ (mem_map.mpr ⟨thing, mem, same⟩))
    have found : (front ++ ⟨id, ptr⟩ :: back).find? (fun thing => thing.id = id) =
        some ⟨id, ptr⟩ := by
      rw [find?_append, find?_eq_none.mpr (by simpa using others)]
      simp
    rw [found]
    exact rep.find_listed

/-- Two items change places in their slots. -/
theorem swap {x y : Item κ T} (first : c.map x.id ≠ 0) (second : c.map y.id ≠ 0)
    (heldX : c.item (c.map x.id) = some x) (heldY : c.item (c.map y.id) = some y)
    (apart : c.map x.id ≠ c.map y.id) :
    ∃ c', c.swap x.id y.id = (true, c') ∧ c'.Represents order (list.map (exchange x y)) ∧
      c'.last = c.last ∧ c'.prev 0 = c.prev 0 := by
  let written := (c.setItem (c.map x.id) (some y)).setItem (c.map y.id) (some x)
  let c' := (written.setMap x.id (c.map y.id)).setMap y.id (c.map x.id)
  have done : c.swap x.id y.id = (true, c') := by
    unfold ItemContainer.swap
    simp only [alwaysEmptyIndex, first, second, apart, or_self, if_false, heldX, heldY]
    rfl
  have within : ∀ {i : Nat} {thing : Item κ T}, c.item i = some thing → i ∈ order := by
    intro i thing held
    exact rep.item_isSome.mp (held ▸ rfl)
  have inside : c.map x.id < c.slots.length :=
    (rep.inside_of_mem (mem_cons_of_mem 0 (within heldX))).1
  have inside' : c.map y.id < (c.setItem (c.map x.id) (some y)).slots.length := by
    rw [length_setItem]
    exact (rep.inside_of_mem (mem_cons_of_mem 0 (within heldY))).1
  have next : c'.next = c.next :=
    (next_setItem _ _ inside').trans (next_setItem _ _ inside)
  have prev : c'.prev = c.prev :=
    (prev_setItem _ _ inside').trans (prev_setItem _ _ inside)
  have ids : x.id ≠ y.id := fun same => apart (congrArg c.map same)
  have item : c'.item = fun i => (c.item i).map (exchange x y) := by
    have written : c'.item =
        update (update c.item (c.map x.id) (some y)) (c.map y.id) (some x) :=
      (item_setItem _ _ inside').trans (congrArg (update · _ _) (item_setItem c _ inside))
    rw [written]
    funext i
    by_cases there : i = c.map y.id
    · rw [there, update_self, heldY, Option.map_some, exchange, if_neg ids.symm, if_pos rfl]
    · rw [update_of_ne there]
      by_cases here : i = c.map x.id
      · rw [here, update_self, heldX, Option.map_some, exchange, if_pos rfl]
      · rw [update_of_ne here]
        rcases held : c.item i with _ | thing
        · rfl
        · have nonzero := rep.ne_zero_of_mem (within held)
          have place := (rep.mapped thing.id i nonzero).mpr ⟨thing.ptr, held⟩
          have notX : thing.id ≠ x.id := fun same => here (same ▸ place.symm)
          have notY : thing.id ≠ y.id := fun same => there (same ▸ place.symm)
          rw [Option.map_some, exchange, if_neg notX, if_neg notY]
  have map : c'.map = fun id => c.map (Equiv.swap x.id y.id id) := by
    rw [Equiv.swap_comm]
    exact (Equiv.comp_swap_eq_update y.id x.id c.map).symm
  refine ⟨c', done, ?_, rfl, congrFun prev 0⟩
  exact
    { size := by
        change written.slots.length = c.max
        rw [length_setItem, length_setItem, rep.size]
      linked := by
        rw [next, prev]
        exact rep.linked
      inside := rep.inside
      items := by
        rw [item, map_map]
        have mapped := congrArg (List.map (Option.map (exchange x y))) rep.items
        rw [map_map, map_map] at mapped
        exact mapped
      vacant := by
        intro i outside
        rw [item]
        exact congrArg (Option.map (exchange x y)) (rep.vacant i outside)
      mapped := by
        intro id i nonzero
        rw [map, item]
        rw [rep.mapped _ i nonzero, exists_item_iff, exists_item_iff, Option.map_map]
        have moved : Item.id ∘ exchange x y = Equiv.swap x.id y.id ∘ Item.id :=
          funext (id_exchange x y)
        rw [moved, ← Option.map_map]
        rcases c.item i with _ | thing
        · simp
        · simp only [Option.map_some, Option.some.injEq]
          exact Equiv.eq_symm_apply (Equiv.swap x.id y.id)
      num := rep.num
      room := rep.room
      nextSlot_pos := rep.nextSlot_pos
      nextSlot_le := rep.nextSlot_le
      nextSlot_free := rep.nextSlot_free
      before_nextSlot := rep.before_nextSlot }

end ItemContainer.Represents

namespace ItemContainer

open Listing

/-! ## Clearing -/

theorem eraseIds_apply (slots : List (Slot κ T)) (map : κ → Nat) (id : κ) :
    eraseIds slots map id =
      if ∃ slot ∈ slots, slot.pItem.map Item.id = some id then 0 else map id := by
  induction slots generalizing map with
  | nil => simp [eraseIds]
  | cons slot slots ih =>
    unfold eraseIds
    rcases held : slot.pItem with _ | thing
    · simp [ih, held]
    · simp only [ih, exists_mem_cons_iff, held, Option.map_some, Option.some.injEq, update_apply]
      by_cases same : thing.id = id
      · simp [same, alwaysEmptyIndex]
      · simp [same, Ne.symm same]

theorem slot_clear (c : ItemContainer κ T) (i : Nat) : c.clear.slot i = Slot.zero := by
  simp only [slot, clear, getD_eq_getElem?_getD, getElem?_map]
  cases c.slots[i]? <;> rfl

variable {c : ItemContainer κ T} {list : List (Item κ T)} {order : List Nat}

omit [DecidableEq κ] in
theorem represents_blank (slots : ∀ i, c.slot i = Slot.zero)
    (unknown : ∀ id, c.map id = 0) (size : c.slots.length = c.max) (room : 0 < c.max)
    (num : c.num = 0) (cursor : c.nextSlot = 1) : c.Represents [] [] := by
  have vacant : ∀ i, c.item i = none := fun i => congrArg Slot.pItem (slots i)
  exact
    { size := size
      linked := .nil (congrArg Slot.next (slots 0))
      inside := forall_mem_nil _
      items := rfl
      vacant := fun i _ => vacant i
      mapped := by
        intro id i nonzero
        rw [unknown, vacant]
        apply iff_of_false nonzero.symm
        rintro ⟨ptr, impossible⟩
        contradiction
      num := num
      room := num ▸ room
      nextSlot_pos := cursor ▸ Nat.one_pos
      nextSlot_le := cursor ▸ room
      nextSlot_free := not_mem_nil
      before_nextSlot := fun i positive lt => absurd lt (cursor ▸ Nat.not_lt.mpr positive) }

theorem Represents.clear (rep : c.Represents order list) : c.clear.Represents [] [] := by
  have unknown : ∀ id, c.clear.map id = 0 := by
    intro id
    change eraseIds c.slots c.map id = 0
    rw [eraseIds_apply]
    split
    · rfl
    · rename_i erased
      by_contra known
      apply erased
      have held := (rep.mapped id _ known).mp rfl
      rw [exists_item_iff] at held
      have inside : c.map id < c.slots.length := by
        by_contra outside
        rw [item, slot, getD_eq_getElem?_getD, getElem?_eq_none (Nat.le_of_not_lt outside)] at held
        contradiction
      refine ⟨c.slots[c.map id], getElem_mem inside, ?_⟩
      rw [← held, item, slot, getD_eq_getElem?_getD, getElem?_eq_getElem inside]
      rfl
  exact represents_blank (slot_clear c) unknown ((length_map _).trans rep.size) rep.max_pos rfl rfl

/-! ## Containers that are only appended to -/

/-- The container represents the list, and `last` is its last slot. -/
structure Appended (c : ItemContainer κ T) (order : List Nat) (list : List (Item κ T)) :
    Prop extends Represents c order list where
  last_eq : c.last = order.getLastD 0

omit [DecidableEq κ] in
theorem appended_empty : (empty : ItemContainer κ T).Appended [] [] := by
  have zero : ∀ i, (empty : ItemContainer κ T).slot i = Slot.zero := by
    intro i
    simp only [slot, empty, getD_eq_getElem?_getD, getElem?_replicate]
    split <;> rfl
  exact ⟨represents_blank zero (fun _ => rfl) length_replicate (Nat.le_add_left 1 9) rfl rfl, rfl⟩

namespace Appended

variable {c : ItemContainer κ T} {order before after : List Nat}
  {list front back : List (Item κ T)} {thing : Item κ T} {granted : Bool} {index : Nat}

omit [DecidableEq κ] in
theorem last_split (rep : c.Appended (before ++ index :: after) list) :
    c.last = index ↔ after = [] := by
  have fresh : index ∉ after := by
    have nodup := nodup_middle.mp rep.nodup
    exact fun mem => (nodup_cons.mp nodup).1 (mem_append_right before mem)
  rw [rep.last_eq, getLastD_append_cons]
  exact getLastD_eq_iff fresh

theorem removed (rep : c.Appended (before ++ index :: after) (front ++ thing :: back))
    (cut : before.length = front.length) :
    (c.removed index).Appended (before ++ after) (front ++ back) where
  toRepresents := rep.toRepresents.removed cut rep.last_split.mp
  last_eq := by
    rw [rep.toRepresents.last_removed cut]
    cases after with
    | nil => rw [if_pos (rep.last_split.mpr rfl), append_nil]
    | cons a after =>
      rw [if_neg fun last => cons_ne_nil a after (rep.last_split.mp last), rep.last_eq,
        getLastD_append_cons, getLastD_append_cons, getLastD_cons]

theorem insertThing (rep : c.Appended order list) (thing : Item κ T) (fresh : c.map thing.id = 0)
    (able : c.canInsert granted = true) :
    ∃ i c', c.insertThing granted thing = (some i, c') ∧
      c'.Appended (order ++ [i]) (list ++ [thing]) ∧ c'.prev 0 = i := by
  obtain ⟨i, c', done, represents, last, prev⟩ :=
    rep.toRepresents.insertThing rep.last_eq fresh able
  refine ⟨i, c', done, ⟨represents, ?_⟩, prev⟩
  rw [last, getLastD_append_cons]
  rfl

end Appended

/-! ## The link back from slot 0 -/

/-- Slot 0 leads back to the last slot. -/
def Mirrored (c : ItemContainer κ T) (order : List Nat) : Prop :=
  order ≠ [] → c.prev 0 = order.getLastD 0

/-- The call does not remove the last one of several items. -/
def SparesLast (c : ItemContainer κ T) : Command κ T → Prop
  | .remove id => ¬ (c.map id ≠ 0 ∧ c.map id = c.last ∧ 2 ≤ c.num)
  | _ => True

instance (c : ItemContainer κ T) (command : Command κ T) : Decidable (c.SparesLast command) := by
  cases command <;> unfold SparesLast <;> infer_instance

theorem Appended.mirrored_removed {before after : List Nat}
    {front back : List (Item κ T)} {thing : Item κ T} {index : Nat}
    (rep : c.Appended (before ++ index :: after) (front ++ thing :: back))
    (cut : before.length = front.length) (spared : after = [] → before = [])
    (mirrored : c.Mirrored (before ++ index :: after)) :
    (c.removed index).Mirrored (before ++ after) := by
  intro left
  have unchanged : (c.removed index).prev 0 = c.prev 0 := by
    rw [rep.toRepresents.prev_zero_removed cut]
    exact if_neg fun both => both.1 (rep.last_split.mpr both.2)
  rw [unchanged, mirrored (append_ne_nil_of_right_ne_nil _ (cons_ne_nil _ _))]
  cases after with
  | nil =>
    rw [append_nil] at left
    exact absurd (spared rfl) left
  | cons a after => rw [getLastD_append_cons, getLastD_append_cons, getLastD_cons]

/-! ## Every call is simulated -/

/-- The call is a step of the association list, after which the container
represents the new list.  The link back from slot 0 stays right if the last item
is spared. -/
def Simulated (c : ItemContainer κ T) (order : List Nat) (list : List (Item κ T))
    (command : Command κ T) : Prop :=
  ∃ order' list', Step list command (c.exec command).1 list' ∧
    (c.exec command).2.Appended order' list' ∧
    (c.SparesLast command → c.Mirrored order → (c.exec command).2.Mirrored order')

theorem Simulated.intro {c' : ItemContainer κ T} {order' : List Nat}
    {list' : List (Item κ T)} {command : Command κ T} {answer : Answer T}
    (called : c.exec command = (answer, c')) (step : Step list command answer list')
    (appended : c'.Appended order' list')
    (mirrored : c.SparesLast command → c.Mirrored order → c'.Mirrored order') :
    c.Simulated order list command := by
  unfold Simulated
  rw [called]
  exact ⟨order', list', step, appended, mirrored⟩

namespace Appended

variable {c : ItemContainer κ T} {order before after : List Nat}
  {list front back : List (Item κ T)}

section

variable (rep : c.Appended order list)
include rep

variable {id : κ}

omit [DecidableEq κ] in
theorem listed_iff : c.map id ≠ 0 ↔ id ∈ ids list := by
  rw [Ne, rep.map_eq_zero_iff, not_not]
  rfl

variable (granted : Bool) (it : T) (replace : Bool)

/-- An item with a new id is appended, if there is memory for it. -/
theorem simulated_insertNew (fresh : c.map id = 0) :
    c.Simulated order list (.insert granted it id replace) := by
  have unlisted : id ∉ ids list := rep.map_eq_zero_iff.mp fresh
  by_cases able : c.canInsert granted = true
  · obtain ⟨i, c', done, appended, prev⟩ := rep.insertThing ⟨id, it⟩ fresh able
    have executed : c.exec (.insert granted it id replace) = (.flag true, c') := by
      simp [exec, ItemContainer.insert, fresh, alwaysEmptyIndex, done]
    refine .intro executed (.append unlisted granted it replace) appended ?_
    intro _ _ _
    rw [getLastD_append_cons]
    exact prev
  · rw [Bool.not_eq_true] at able
    have executed : c.exec (.insert granted it id replace) = (.flag false, c) := by
      simp [exec, ItemContainer.insert, fresh, alwaysEmptyIndex, insertThing_eq_none _ able]
    obtain rfl : granted = false := by
      exact (Bool.or_eq_false_iff.mp able).1
    exact .intro executed (.noMemory unlisted it replace) rep fun _ mirrored => mirrored

/-- An item with a listed id stays, or is replaced by one at the end. -/
theorem simulated_insertOld (listed : c.map id ≠ 0) :
    c.Simulated order list (.insert granted it id replace) := by
  have member : id ∈ ids list := rep.listed_iff.mp listed
  cases replace with
  | false =>
    have executed : c.exec (.insert granted it id false) = (.flag false, c) := by
      simp [exec, ItemContainer.insert, listed, alwaysEmptyIndex]
    exact .intro executed (.keep member granted it) rep fun _ mirrored => mirrored
  | true =>
    obtain ⟨before, after, front, ptr, back, placed, rfl, cut⟩ := rep.exists_split listed
    rw [placed] at rep
    have emptied := rep.removeThingFromIndex_eq cut
    have left := rep.removed cut
    have erased := erase_middle rep.ids_nodup
    have fresh : (c.removed (c.map id)).map id = 0 := by
      rw [left.map_eq_zero_iff, ← erased]
      simp [erase]
    -- the removal has made room
    have able : (c.removed (c.map id)).canInsert granted = true := by
      have num := left.num
      have num' := rep.num
      have room := rep.room
      have max : (c.removed (c.map id)).max = c.max := (rep.toRepresents.unlinkSlot cut).max
      unfold canInsert
      rw [length_append] at num
      rw [length_append, length_cons] at num'
      rw [Bool.or_eq_true, decide_eq_true_eq, max]
      right
      omega
    obtain ⟨i, c', done, appended, prev⟩ := left.insertThing ⟨id, it⟩ fresh able
    have executed : c.exec (.insert granted it id true) = (.flag true, c') := by
      simp [exec, ItemContainer.insert, listed, alwaysEmptyIndex, emptied, done]
    refine .intro executed (.replace member granted it) (erased.symm ▸ appended) ?_
    intro _ _ _
    rw [getLastD_append_cons]
    exact prev

theorem simulated_remove (id : κ) : c.Simulated order list (.remove id) := by
  by_cases listed : c.map id = 0
  · have executed : c.exec (.remove id) = (.flag false, c) := by
      simp [exec, ItemContainer.remove, listed, alwaysEmptyIndex]
    exact .intro executed (.notRemoved (rep.map_eq_zero_iff.mp listed)) rep
      fun _ mirrored => mirrored
  · have member : id ∈ ids list := rep.listed_iff.mp listed
    obtain ⟨before, after, front, ptr, back, rfl, rfl, cut⟩ := rep.exists_split listed
    have erased := erase_middle rep.ids_nodup
    have executed : c.exec (.remove id) = (.flag true, c.removed (c.map id)) := by
      simp [exec, ItemContainer.remove, listed, alwaysEmptyIndex, rep.removeThingFromIndex_eq cut]
    refine .intro executed (.remove member) (erased.symm ▸ rep.removed cut) ?_
    intro spares mirrored
    refine rep.mirrored_removed cut ?_ mirrored
    intro none
    have last := rep.last_split.mpr none
    have num := rep.num
    have few : ¬ 2 ≤ c.num := fun many => spares ⟨listed, last.symm, many⟩
    rw [length_append, length_cons] at num
    exact eq_nil_of_length_eq_zero (by omega)

theorem simulated_pop : c.Simulated order list .pop := by
  have first := rep.linked.next_sentinel
  cases order with
  | nil =>
    obtain rfl : list = [] := eq_nil_of_length_eq_zero rep.length_list
    have executed : c.exec .pop = (.value none, c) := by
      simp [exec, ItemContainer.pop, first, alwaysEmptyIndex]
    exact .intro executed .notPopped rep fun _ mirrored => mirrored
  | cons index after =>
    obtain ⟨thing, back, rfl⟩ : ∃ thing back, list = thing :: back :=
      exists_cons_of_length_eq_add_one rep.length_list
    have split : c.Appended ([] ++ index :: after) ([] ++ thing :: back) := rep
    have nonzero : index ≠ 0 := rep.ne_zero_of_mem mem_cons_self
    have held : c.item index = some thing := split.item_eq rfl
    have executed : c.exec .pop = (.value (some thing.ptr), c.removed index) := by
      simp [exec, ItemContainer.pop, first, alwaysEmptyIndex, nonzero, held]
    exact .intro executed (.pop thing back) (split.removed rfl) fun _ mirrored =>
      split.mirrored_removed rfl (fun _ => rfl) mirrored

theorem simulated_swap (id1 id2 : κ) : c.Simulated order list (.swap id1 id2) := by
  by_cases refused : c.map id1 = 0 ∨ c.map id2 = 0 ∨ c.map id1 = c.map id2
  · have called : c.swap id1 id2 = (false, c) := if_pos refused
    have executed : c.exec (.swap id1 id2) = (.flag false, c) := by
      simp only [exec, called]
    refine .intro executed (.notSwapped ?_) rep fun _ mirrored => mirrored
    rcases refused with first | second | same
    · exact Or.inl (rep.map_eq_zero_iff.mp first)
    · exact Or.inr (Or.inl (rep.map_eq_zero_iff.mp second))
    · by_cases first : c.map id1 = 0
      · exact Or.inl (rep.map_eq_zero_iff.mp first)
      · right
        right
        obtain ⟨ptr, held⟩ := (rep.mapped id1 _ first).mp rfl
        obtain ⟨ptr', held'⟩ := (rep.mapped id2 _ first).mp same.symm
        rw [held] at held'
        exact congrArg Item.id (Option.some.inj held')
  · rw [not_or, not_or] at refused
    obtain ⟨first, second, apart⟩ := refused
    obtain ⟨ptr1, held1⟩ := (rep.mapped id1 _ first).mp rfl
    obtain ⟨ptr2, held2⟩ := (rep.mapped id2 _ second).mp rfl
    have member : ∀ {i : Nat} {thing : Item κ T}, c.item i = some thing → thing ∈ list := by
      intro i thing held
      have mem : some thing ∈ order.map c.item :=
        mem_map.mpr ⟨i, rep.item_isSome.mp (held ▸ rfl), held⟩
      rw [rep.items] at mem
      simpa using mem
    obtain ⟨c', done, represents, last, prev⟩ :=
      rep.toRepresents.swap (x := ⟨id1, ptr1⟩) (y := ⟨id2, ptr2⟩) first second held1 held2 apart
    have ids : id1 ≠ id2 := fun same => apart (congrArg c.map same)
    have executed : c.exec (.swap id1 id2) = (.flag true, c') := by
      simp only [exec, done]
    exact .intro executed (.swap (member held1) (member held2) ids)
      ⟨represents, last.trans rep.last_eq⟩ fun _ mirrored some => prev.trans (mirrored some)

end

/-- Every call keeps the representation and is a step of the list. -/
theorem simulated (rep : c.Appended order list) (command : Command κ T) :
    c.Simulated order list command := by
  cases command with
  | insert granted it id replace =>
    by_cases listed : c.map id = 0
    · exact rep.simulated_insertNew granted it replace listed
    · exact rep.simulated_insertOld granted it replace listed
  | remove id => exact rep.simulated_remove id
  | find id =>
    have executed : c.exec (.find id) = (.value (lookup id list), c) := by
      simp only [exec, rep.find_eq id]
    exact .intro executed (.find list id) rep fun _ mirrored => mirrored
  | pop => exact rep.simulated_pop
  | swap id1 id2 => exact rep.simulated_swap id1 id2
  | clear =>
    exact .intro rfl (.clear list) ⟨rep.toRepresents.clear, rfl⟩
      fun _ _ some => absurd rfl some

end Appended

/-! ## The refinement -/

/-- Whatever is called, the answers are those of an ordered association list with
different ids.  Forward iteration, `count` and `find` agree with the list that is
reached.  The cursor is at a free slot, or at the end of an array that is full;
when an insertion uses it, it is at a free slot. -/
theorem container_refines_listing (commands : List (Command κ T)) :
    ∃ list, Behaviour Step [] commands (execute exec empty commands).1 list ∧
      (ids list).Nodup ∧
      (∀ rounds, list.length < rounds →
        (execute exec empty commands).2.iterate false rounds = list.map Item.ptr) ∧
      (execute exec empty commands).2.count = list.length ∧
      (∀ id, (execute exec empty commands).2.find id = lookup id list) ∧
      (let c := (execute exec empty commands).2
      0 < c.nextSlot ∧ c.item c.nextSlot = none ∧
        (if c.max = c.num + 1 then c.nextSlot = c.max else c.nextSlot < c.max) ∧
        ∀ granted grown, c.checkAndResize granted = some grown →
          grown.nextSlot < grown.max ∧ grown.item grown.nextSlot = none) := by
  have simulates : ∀ (c : ItemContainer κ T) list, (∃ order, c.Appended order list) →
      ∀ command, ∃ list', Step list command (c.exec command).1 list' ∧
        ∃ order', (c.exec command).2.Appended order' list' := by
    rintro c list ⟨order, rep⟩ command
    obtain ⟨order', list', step, appended, -⟩ := rep.simulated command
    exact ⟨list', step, order', appended⟩
  obtain ⟨list, behaviour, order, rep⟩ :=
    behaviour_of_simulation simulates ⟨[], appended_empty⟩ commands
  refine ⟨list, behaviour, rep.ids_nodup, ?_, ?_, rep.find_eq, rep.nextSlot_pos, ?_, ?_, ?_⟩
  · intro rounds enough
    exact rep.iterate_forward enough
  · exact rep.num.trans rep.length_list.symm
  · exact rep.vacant _ rep.nextSlot_free
  · have cursor := rep.nextSlot_lt_iff
    have le := rep.nextSlot_le
    split
    · omega
    · rename_i spare
      exact cursor.mpr spare
  · intro granted grown resized
    obtain ⟨grew, inside⟩ := rep.toRepresents.checkAndResize resized
    exact ⟨inside, grew.vacant _ grew.nextSlot_free⟩

/-- Nine insertions fill the first array, and the cursor is behind it. -/
theorem cursor_behind_full_array :
    ¬ ∀ commands : List (Command Nat Nat),
      (execute exec empty commands).2.nextSlot < (execute exec empty commands).2.max := by
  intro always
  have inside := always ((range 9).map fun id => .insert true id id false)
  exact absurd inside (by decide +kernel)

end ItemContainer

end Torque.Container
