import Torque.Container.ItemContainer
import Torque.Structure.Links
import Mathlib.Data.List.Perm.Subperm

/-!
# What a container represents

`Represents c order list` says that the slots `order` are linked in this order,
that they hold the items of `list`, and that the map and the cursor belong to
them.  Two things are left open, because they do not hold in every container:
whether `last` is the last slot, and whether the link back from slot 0 leads
there.
-/

namespace Torque.Container

open Torque.Structure Function List

universe u v

namespace ItemContainer

variable {κ : Type u} {T : Type v}

/-! ## Writes -/

section

variable (c : ItemContainer κ T) {index : Nat} (value : Nat)

/-- A field of the slots when one of them changes. -/
theorem field_modify {α : Type*} {slots : List (Slot κ T)} (field : Slot κ T → α)
    (f : Slot κ T → Slot κ T) (inside : index < slots.length) :
    (fun i => field ((slots.modify index f).getD i Slot.zero)) =
      update (fun i => field (slots.getD i Slot.zero)) index
        (field (f (slots.getD index Slot.zero))) := by
  funext i
  by_cases same : i = index
  · subst same
    simp [inside]
  · simp [same, Ne.symm same]

variable (thing : Option (Item κ T))

@[simp]
theorem length_setItem : (c.setItem index thing).slots.length = c.slots.length :=
  length_modify ..

@[simp]
theorem length_setNext : (c.setNext index value).slots.length = c.slots.length :=
  length_modify ..

@[simp]
theorem length_setPrev : (c.setPrev index value).slots.length = c.slots.length :=
  length_modify ..

variable (inside : index < c.slots.length)
include inside

@[simp]
theorem item_setItem : (c.setItem index thing).item = update c.item index thing :=
  field_modify Slot.pItem _ inside

@[simp]
theorem next_setItem : (c.setItem index thing).next = c.next :=
  (field_modify Slot.next _ inside).trans (update_eq_self index c.next)

@[simp]
theorem prev_setItem : (c.setItem index thing).prev = c.prev :=
  (field_modify Slot.prev _ inside).trans (update_eq_self index c.prev)

@[simp]
theorem item_setNext : (c.setNext index value).item = c.item :=
  (field_modify Slot.pItem _ inside).trans (update_eq_self index c.item)

@[simp]
theorem next_setNext : (c.setNext index value).next = update c.next index value :=
  field_modify Slot.next _ inside

@[simp]
theorem prev_setNext : (c.setNext index value).prev = c.prev :=
  (field_modify Slot.prev _ inside).trans (update_eq_self index c.prev)

@[simp]
theorem item_setPrev : (c.setPrev index value).item = c.item :=
  (field_modify Slot.pItem _ inside).trans (update_eq_self index c.item)

@[simp]
theorem next_setPrev : (c.setPrev index value).next = c.next :=
  (field_modify Slot.next _ inside).trans (update_eq_self index c.next)

@[simp]
theorem prev_setPrev : (c.setPrev index value).prev = update c.prev index value :=
  field_modify Slot.prev _ inside

end

/-! ## Representation -/

/-- The slots `order` hold the items of the list. -/
structure Represents (c : ItemContainer κ T) (order : List Nat) (list : List (Item κ T)) :
    Prop where
  size : c.slots.length = c.max
  linked : Linked c.next c.prev 0 order
  inside : ∀ i ∈ order, i < c.max
  items : order.map c.item = list.map some
  vacant : ∀ i, i ∉ order → c.item i = none
  mapped : ∀ id i, i ≠ 0 → (c.map id = i ↔ ∃ ptr, c.item i = some ⟨id, ptr⟩)
  num : c.num = order.length
  room : c.num + 1 ≤ c.max
  nextSlot_pos : 0 < c.nextSlot
  nextSlot_le : c.nextSlot ≤ c.max
  nextSlot_free : c.nextSlot ∉ order
  /-- The cursor is at the first slot that is free. -/
  before_nextSlot : ∀ i, 0 < i → i < c.nextSlot → i ∈ order

theorem headD_eq_zero_iff {order : List Nat} (outside : 0 ∉ order) :
    order.headD 0 = 0 ↔ order = [] := by
  rw [← getLastD_reverse, getLastD_eq_iff (by simpa using outside), reverse_eq_nil_iff]

namespace Represents

variable {c : ItemContainer κ T} {order : List Nat} {list : List (Item κ T)} {i : Nat}

variable (rep : c.Represents order list)
include rep

theorem length_list : list.length = order.length := by
  have length := congrArg length rep.items
  simpa using length.symm

theorem max_pos : 0 < c.max :=
  Nat.lt_of_lt_of_le (Nat.succ_pos _) rep.room

theorem zero_not_mem : 0 ∉ order :=
  (nodup_cons.mp rep.linked.nodup).1

theorem nodup : order.Nodup :=
  (nodup_cons.mp rep.linked.nodup).2

theorem item_isSome : (c.item i).isSome ↔ i ∈ order := by
  constructor
  · intro held
    by_contra outside
    rw [rep.vacant i outside] at held
    contradiction
  · intro mem
    have listed : c.item i ∈ list.map some := rep.items ▸ mem_map_of_mem mem
    obtain ⟨thing, -, same⟩ := mem_map.mp listed
    rw [← same]
    rfl

theorem ne_zero_of_mem (mem : i ∈ order) : i ≠ 0 := by
  rintro rfl
  exact rep.zero_not_mem mem

/-- The cursor is inside the array unless the array is full. -/
theorem nextSlot_lt_iff : c.nextSlot < c.max ↔ c.max ≠ c.num + 1 := by
  have room := rep.room
  have num := rep.num
  constructor
  · -- the cursor is a free slot beside the occupied ones
    intro lt
    have within : c.nextSlot :: order ⊆ range' 1 (c.max - 1) := by
      intro i mem
      rw [mem_range'_1]
      rcases mem_cons.mp mem with rfl | held
      · have pos := rep.nextSlot_pos
        omega
      · have nonzero := rep.ne_zero_of_mem held
        have inside := rep.inside i held
        omega
    have nodup : (c.nextSlot :: order).Nodup := nodup_cons.mpr ⟨rep.nextSlot_free, rep.nodup⟩
    have counted := (subperm_of_subset nodup within).length_le
    simp only [length_cons, length_range'] at counted
    omega
  · -- all slots in front of the cursor are occupied
    intro ne
    by_contra outside
    have within : range' 1 (c.max - 1) ⊆ order := by
      intro i mem
      rw [mem_range'_1] at mem
      exact rep.before_nextSlot i (by omega) (by omega)
    have counted := (subperm_of_subset nodup_range' within).length_le
    rw [length_range'] at counted
    omega

end Represents

variable {c : ItemContainer κ T} {granted : Bool}

/-! ## The cursor -/

/-- The cursor stops at the first free slot or at the end of the array. -/
theorem skipOccupied_spec (c : ItemContainer κ T) (left index : Nat) :
    index ≤ c.skipOccupied left index ∧ c.skipOccupied left index ≤ index + left ∧
      (∀ i, index ≤ i → i < c.skipOccupied left index → (c.item i).isSome) ∧
      (c.skipOccupied left index < index + left →
        c.item (c.skipOccupied left index) = none) := by
  induction left generalizing index with
  | zero =>
    unfold skipOccupied
    exact ⟨Nat.le_refl _, Nat.le_refl _, fun _ _ _ => by omega, fun lt => by omega⟩
  | succ left ih =>
    unfold skipOccupied
    split
    · rename_i occupied
      obtain ⟨ge, le, between, free⟩ := ih (index + 1)
      refine ⟨by omega, by omega, ?_, ?_⟩
      · intro i least most
        by_cases first : i = index
        · exact first ▸ occupied
        · exact between i (by omega) most
      · intro lt
        exact free (by omega)
    · rename_i vacant
      refine ⟨Nat.le_refl _, by omega, fun _ _ _ => by omega, fun _ => ?_⟩
      simpa using vacant

theorem getD_append_zero (slots : List (Slot κ T)) (n i : Nat) :
    (slots ++ replicate n Slot.zero).getD i Slot.zero = slots.getD i Slot.zero := by
  simp only [getD_eq_getElem?_getD, getElem?_append]
  split
  · rfl
  · rename_i outside
    rw [getElem?_eq_none (Nat.le_of_not_lt outside), getElem?_replicate]
    split <;> rfl

/-- Growing changes nothing but the size of the array. -/
structure Resized (c c' : ItemContainer κ T) : Prop where
  item : c'.item = c.item
  next : c'.next = c.next
  prev : c'.prev = c.prev
  map : c'.map = c.map
  num : c'.num = c.num
  nextSlot : c'.nextSlot = c.nextSlot
  last : c'.last = c.last
  max : c.max ≤ c'.max

theorem resized_of_checkAndResize {c' : ItemContainer κ T}
    (done : c.checkAndResize granted = some c') : Resized c c' := by
  unfold checkAndResize at done
  split at done
  · split at done
    · cases done
      constructor
      · funext i
        exact congrArg Slot.pItem (getD_append_zero c.slots c.max i)
      · funext i
        exact congrArg Slot.next (getD_append_zero c.slots c.max i)
      · funext i
        exact congrArg Slot.prev (getD_append_zero c.slots c.max i)
      · rfl
      · rfl
      · rfl
      · rfl
      · exact Nat.le_mul_of_pos_right _ Nat.two_pos
    · contradiction
  · cases done
    exact ⟨rfl, rfl, rfl, rfl, rfl, rfl, rfl, Nat.le_refl _⟩

/-- There is memory for one more item. -/
def canInsert (c : ItemContainer κ T) (granted : Bool) : Bool :=
  granted || decide (c.max ≠ c.num + 1)

theorem checkAndResize_eq_none_iff :
    c.checkAndResize granted = none ↔ c.canInsert granted = false := by
  unfold checkAndResize canInsert
  cases granted <;> by_cases full : c.max = c.num + 1 <;> simp [full]

theorem exists_checkAndResize (able : c.canInsert granted = true) :
    ∃ grown, c.checkAndResize granted = some grown := by
  rcases resized : c.checkAndResize granted with _ | grown
  · rw [checkAndResize_eq_none_iff, able] at resized
    contradiction
  · exact ⟨grown, rfl⟩

namespace Represents

variable {c c' : ItemContainer κ T} {order before after : List Nat}
  {list front back : List (Item κ T)} {thing : Item κ T} {i index : Nat} {id : κ}

/-- After growing, the cursor is at a slot of the array. -/
theorem checkAndResize (rep : c.Represents order list) (done : c.checkAndResize granted = some c') :
    c'.Represents order list ∧ c'.nextSlot < c'.max := by
  have resized := resized_of_checkAndResize done
  have sizes : c'.slots.length = c'.max ∧ c'.max ≠ c'.num + 1 := by
    have size := rep.size
    unfold ItemContainer.checkAndResize at done
    split at done
    · split at done
      · cases done
        refine ⟨?_, ?_⟩
        · simp only [length_append, length_replicate]
          omega
        · simp only
          omega
      · contradiction
    · rename_i spare
      cases done
      exact ⟨size, spare⟩
  have represents : c'.Represents order list :=
    { size := sizes.1
      linked := by
        rw [resized.next, resized.prev]
        exact rep.linked
      inside := fun i mem => Nat.lt_of_lt_of_le (rep.inside i mem) resized.max
      items := by
        rw [resized.item]
        exact rep.items
      vacant := by
        rw [resized.item]
        exact rep.vacant
      mapped := by
        rw [resized.item, resized.map]
        exact rep.mapped
      num := resized.num.trans rep.num
      room := by
        rw [resized.num]
        exact Nat.le_trans rep.room resized.max
      nextSlot_pos := resized.nextSlot ▸ rep.nextSlot_pos
      nextSlot_le := resized.nextSlot ▸ Nat.le_trans rep.nextSlot_le resized.max
      nextSlot_free := resized.nextSlot ▸ rep.nextSlot_free
      before_nextSlot := resized.nextSlot ▸ rep.before_nextSlot }
  exact ⟨represents, represents.nextSlot_lt_iff.mpr sizes.2⟩

/-! ### Slots -/

/-- A slot of the order, or slot 0, is a slot of the array other than the one of
the cursor. -/
theorem inside_of_mem (rep : c.Represents order list) (mem : i ∈ 0 :: order) :
    i < c.slots.length ∧ i ≠ c.nextSlot := by
  rw [rep.size]
  rcases mem_cons.mp mem with rfl | held
  · exact ⟨rep.max_pos, (Nat.ne_of_gt rep.nextSlot_pos).symm⟩
  · refine ⟨rep.inside i held, ?_⟩
    rintro rfl
    exact rep.nextSlot_free held

theorem next_mem (rep : c.Represents (before ++ index :: after) list) :
    c.next index ∈ 0 :: (before ++ index :: after) := by
  rw [rep.linked.next_eq]
  have mem := headD_mem after 0
  exact mem_cons.mpr ((mem_cons.mp mem).imp_right
    (mem_append_right before ∘ mem_cons_of_mem index))

theorem prev_mem (rep : c.Represents (before ++ index :: after) list) :
    c.prev index ∈ 0 :: (before ++ index :: after) := by
  rw [rep.linked.prev_eq]
  have mem := getLastD_mem_cons (l := before) (a := 0)
  exact mem_cons.mpr ((mem_cons.mp mem).imp_right (mem_append_left _))

/-! ### Finding -/

/-- An entry of the order, together with its item. -/
theorem item_eq (rep : c.Represents (before ++ i :: after) (front ++ thing :: back))
    (cut : before.length = front.length) : c.item i = some thing := by
  have items := rep.items
  simp only [map_append, map_cons] at items
  have aligned := append_inj items (by simpa using cut)
  exact (cons.inj aligned.2).1

/-- The slot of a listed id, and where its item stands in the list. -/
theorem exists_split (rep : c.Represents order list) (listed : c.map id ≠ 0) :
    ∃ before after front ptr back, order = before ++ c.map id :: after ∧
      list = front ++ ⟨id, ptr⟩ :: back ∧ before.length = front.length := by
  obtain ⟨ptr, held⟩ := (rep.mapped id (c.map id) listed).mp rfl
  have mem : c.map id ∈ order := by
    by_contra outside
    rw [rep.vacant _ outside] at held
    contradiction
  obtain ⟨before, after, rfl⟩ := append_of_mem mem
  have items := rep.items
  rw [map_append, map_cons, held] at items
  obtain ⟨first, rest, rfl, firsts, rests⟩ := map_eq_append_iff.mp items.symm
  obtain ⟨thing, back, rfl, same, backs⟩ := map_eq_cons_iff.mp rests
  cases same
  refine ⟨before, after, first, ptr, back, rfl, rfl, ?_⟩
  simpa using (congrArg length firsts).symm

/-- An item of the list is mapped to the slot that holds it. -/
theorem map_eq (rep : c.Represents (before ++ i :: after) (front ++ thing :: back))
    (cut : before.length = front.length) : c.map thing.id = i :=
  (rep.mapped thing.id i (rep.ne_zero_of_mem (by simp))).mpr ⟨thing.ptr, rep.item_eq cut⟩

theorem exists_order (rep : c.Represents order (front ++ thing :: back)) :
    ∃ before i after, order = before ++ i :: after ∧ before.length = front.length := by
  have length := rep.length_list
  rw [length_append, length_cons] at length
  refine ⟨order.take front.length, order[front.length], order.drop (front.length + 1), ?_, ?_⟩
  · rw [getElem_cons_drop, take_append_drop]
  · rw [length_take]
    omega

/-- An id is unknown to the map exactly if no item has it. -/
theorem map_eq_zero_iff (rep : c.Represents order list) : c.map id = 0 ↔ id ∉ list.map Item.id := by
  constructor
  · intro unknown listed
    obtain ⟨thing, mem, rfl⟩ := mem_map.mp listed
    obtain ⟨front, back, rfl⟩ := append_of_mem mem
    obtain ⟨before, i, after, rfl, cut⟩ := rep.exists_order
    have nonzero := rep.ne_zero_of_mem (i := i) (by simp)
    have found := rep.map_eq cut
    omega
  · intro unlisted
    by_contra known
    obtain ⟨before, after, front, ptr, back, -, rfl, -⟩ := rep.exists_split known
    simp at unlisted

end Represents

end ItemContainer

end Torque.Container
