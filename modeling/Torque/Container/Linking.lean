import Torque.Container.Representation

/-!
# Linking and unlinking

The three ways to insert an item put it between two slots of the order, and
`unlink_slot` takes one out.  Each is shown to write the links that
`Linked.insert` and `Linked.remove` ask for; what it does to `last` and to the
link back from slot 0 is stated beside it.
-/

namespace Torque.Container

open Torque.Structure Function List

universe u v

namespace ItemContainer

variable {κ : Type u} {T : Type v} [DecidableEq κ] {thing : Item κ T}

/-! ## Putting an item between two slots -/

/-- The item is in the slot of the cursor, between the slots `p` and `n`. -/
structure Placed (c : ItemContainer κ T) (thing : Item κ T) (p n : Nat) (c' : ItemContainer κ T) :
    Prop where
  size : c'.slots.length = c.slots.length
  max : c'.max = c.max
  num : c'.num = c.num
  nextSlot : c'.nextSlot = c.nextSlot
  item : c'.item = update c.item c.nextSlot (some thing)
  map : c'.map = update c.map thing.id c.nextSlot
  next : c'.next = update (update c.next c.nextSlot n) p c.nextSlot
  prev : c'.prev = update (update c.prev c.nextSlot p) n c.nextSlot

section

variable {c : ItemContainer κ T} {thing : Item κ T}

section

variable (inside : c.nextSlot < c.slots.length)
include inside

@[simp]
theorem item_occupy : (c.occupy thing).item = update c.item c.nextSlot (some thing) :=
  item_setItem c (some thing) inside

@[simp]
theorem next_occupy : (c.occupy thing).next = c.next :=
  next_setItem c (some thing) inside

@[simp]
theorem prev_occupy : (c.occupy thing).prev = c.prev :=
  prev_setItem c (some thing) inside

end

@[simp]
theorem length_occupy : (c.occupy thing).slots.length = c.slots.length :=
  length_setItem c (some thing)

end

/-- Slots and map agree before an item is put into a vacant slot just if they do afterwards. -/
theorem mapped_update_iff {item : Nat → Option (Item κ T)} {map : κ → Nat} {slot i : Nat}
    (vacant : item slot = none) (fresh : map thing.id = 0) (id : κ) (nonzero : i ≠ 0) :
    (update map thing.id slot id = i ↔
        ∃ ptr, update item slot (some thing) i = some ⟨id, ptr⟩) ↔
      (map id = i ↔ ∃ ptr, item i = some ⟨id, ptr⟩) := by
  obtain ⟨own, ptr⟩ := thing
  by_cases same : id = own
  · subst same
    by_cases here : i = slot
    · subst here
      simp [fresh, vacant, nonzero.symm]
    · simp [fresh, here, Ne.symm here, nonzero.symm]
  · by_cases here : i = slot
    · subst here
      simp [same, Ne.symm same, vacant]
    · simp [same, here]

namespace Represents

variable {c c' : ItemContainer κ T} {before after : List Nat} {front back : List (Item κ T)}
  {thing : Item κ T}

/-- A placed item is counted, and the cursor goes on to the next free slot. -/
theorem counted (rep : c.Represents (before ++ after) (front ++ back))
    (cut : before.length = front.length) (inside : c.nextSlot < c.max)
    (fresh : c.map thing.id = 0)
    (placed : Placed c thing (before.getLastD 0) (after.headD 0) c') :
    c'.counted.Represents (before ++ c.nextSlot :: after) (front ++ thing :: back) := by
  have pos := rep.nextSlot_pos
  have outside : c.nextSlot ∉ 0 :: (before ++ after) := by
    rw [mem_cons]
    rintro (zero | mem)
    · omega
    · exact rep.nextSlot_free mem
  have first : before.getLastD 0 ≠ c.nextSlot := by
    intro same
    apply outside
    rw [← same]
    have mem := getLastD_mem_cons (l := before) (a := 0)
    exact mem_cons.mpr ((mem_cons.mp mem).imp_right (mem_append_left after))
  have second : after.headD 0 ≠ c.nextSlot := by
    intro same
    apply outside
    rw [← same]
    have mem := headD_mem after 0
    exact mem_cons.mpr ((mem_cons.mp mem).imp_right (mem_append_right before))
  have entry : ∀ y ∈ 0 :: (before ++ after), y ≠ c.nextSlot := by
    rintro y mem rfl
    exact outside mem
  have linked : Linked c'.next c'.prev 0 (before ++ c.nextSlot :: after) := by
    rw [placed.next, placed.prev]
    apply rep.linked.insert outside
    · rw [update_of_ne first.symm, update_self]
    · rw [update_self]
    · intro y mem other
      rw [update_of_ne other, update_of_ne (entry y mem)]
    · rw [update_of_ne second.symm, update_self]
    · intro _
      rw [update_self]
    · intro y mem other
      rw [update_of_ne other, update_of_ne (entry y (mem_cons_of_mem _ mem))]
  have mem_order : ∀ i, i ∈ before ++ c.nextSlot :: after ↔
      i = c.nextSlot ∨ i ∈ before ++ after := by
    intro i
    rw [perm_middle.mem_iff, mem_cons]
  have room : c'.num + 1 + 1 ≤ c'.max := by
    have full := rep.nextSlot_lt_iff.mp inside
    have room := rep.room
    rw [placed.num, placed.max]
    omega
  have occupied : ∀ i, (c'.item i).isSome ↔ i ∈ before ++ c.nextSlot :: after := by
    intro i
    rw [mem_order, placed.item]
    by_cases here : i = c.nextSlot
    · simp [here]
    · rw [update_of_ne here, rep.item_isSome]
      simp [here]
  obtain ⟨ge, le, between, free⟩ :=
    skipOccupied_spec { c' with num := c'.num + 1 } (c'.max - c'.nextSlot) c'.nextSlot
  have least : c'.nextSlot < c'.max := by
    rw [placed.nextSlot, placed.max]
    exact inside
  have reach : c'.nextSlot + (c'.max - c'.nextSlot) = c'.max := by omega
  rw [reach] at le free
  exact
    { size := placed.size.trans (rep.size.trans placed.max.symm)
      linked := linked
      inside := by
        intro i mem
        change i < c'.max
        rw [placed.max]
        rcases (mem_order i).mp mem with rfl | old
        · exact inside
        · exact rep.inside i old
      items := by
        change List.map c'.item _ = _
        have items := rep.items
        rw [map_append, map_append] at items
        obtain ⟨fronts, backs⟩ := append_inj items (by simpa using cut)
        have kept : ∀ i ∈ before ++ after, c'.item i = c.item i := by
          intro i mem
          rw [placed.item, update_of_ne (entry i (mem_cons_of_mem _ mem))]
        rw [map_append, map_append, map_cons, map_cons, ← fronts, ← backs,
          map_congr_left fun i mem => kept i (mem_append_left after mem),
          map_congr_left fun i mem => kept i (mem_append_right before mem),
          placed.item, update_self]
      vacant := by
        intro i unlisted
        rw [← occupied] at unlisted
        change c'.item i = none
        simpa using unlisted
      mapped := by
        intro id i nonzero
        change c'.map id = i ↔ ∃ ptr, c'.item i = some ⟨id, ptr⟩
        rw [placed.map, placed.item,
          mapped_update_iff (rep.vacant _ rep.nextSlot_free) fresh id nonzero]
        exact rep.mapped id i nonzero
      num := by
        change c'.num + 1 = _
        rw [placed.num, rep.num]
        simp only [length_append, length_cons]
        omega
      room := room
      nextSlot_pos := Nat.lt_of_lt_of_le (placed.nextSlot ▸ pos) ge
      nextSlot_le := le
      nextSlot_free := by
        intro mem
        by_cases within : c'.counted.nextSlot < c'.max
        · have none : c'.item c'.counted.nextSlot = none := free within
          have some := (occupied _).mpr mem
          rw [none] at some
          contradiction
        · apply within
          rw [placed.max]
          rcases (mem_order _).mp mem with here | old
          · exact here ▸ inside
          · exact rep.inside _ old
      before_nextSlot := by
        intro i positive lt
        by_cases early : i < c'.nextSlot
        · rw [placed.nextSlot] at early
          exact (mem_order i).mpr (Or.inr (rep.before_nextSlot i positive early))
        · exact (occupied i).mp (between i (Nat.le_of_not_lt early) lt) }

end Represents

theorem Placed.setLast {grown c' : ItemContainer κ T} {p n : Nat}
    (placed : Placed grown thing p n c') (last : Nat) : Placed grown thing p n (c'.setLast last) :=
  ⟨placed.size, placed.max, placed.num, placed.nextSlot, placed.item, placed.map, placed.next,
    placed.prev⟩

/-! ### The three ways to insert -/

section

variable {c grown : ItemContainer κ T} {granted : Bool} (thing : Item κ T) {index : Nat}

section

variable (resized : c.checkAndResize granted = some grown)
  (inside : grown.nextSlot < grown.slots.length)
include resized inside

/-- `insert_thing` puts the item behind `last`. -/
theorem insertThing_eq (last : grown.last < grown.slots.length)
    (apart : grown.last ≠ grown.nextSlot) (pos : 0 < grown.nextSlot) :
    ∃ c', c.insertThing granted thing = (some grown.nextSlot, c'.counted) ∧
      Placed grown thing grown.last 0 c' ∧ c'.last = grown.nextSlot := by
  have first : 0 < grown.slots.length := Nat.lt_trans pos inside
  let occupied := (grown.occupy thing).setPrev grown.nextSlot grown.last
  let started :=
    if occupied.last = alwaysEmptyIndex then occupied.setNext alwaysEmptyIndex grown.nextSlot
    else occupied
  -- slot 0 is linked twice if the container was empty
  have linked : started.setNext grown.last grown.nextSlot =
      occupied.setNext grown.last grown.nextSlot := by
    by_cases none : grown.last = 0
    · have twice : started = occupied.setNext grown.last grown.nextSlot := by
        rw [none]
        exact if_pos none
      rw [twice]
      simp only [setNext, modify_modify_eq]
      rfl
    · have once : started = occupied := if_neg none
      rw [once]
  have started_last : started.last = grown.last := by
    simp only [started]
    split <;> rfl
  let closed := ((occupied.setNext grown.last grown.nextSlot).setPrev alwaysEmptyIndex
    grown.nextSlot).setNext grown.nextSlot alwaysEmptyIndex
  have placed : Placed grown thing grown.last 0 closed := by
    constructor
    · simp [closed, occupied]
    · rfl
    · rfl
    · rfl
    · simp [closed, occupied, inside, last, first, alwaysEmptyIndex]
    · rfl
    · rw [update_comm apart.symm]
      simp [closed, occupied, inside, last, first, alwaysEmptyIndex]
    · simp [closed, occupied, inside, last, first, alwaysEmptyIndex]
  refine ⟨closed.setLast grown.nextSlot, ?_, placed.setLast _, rfl⟩
  have built : closed.setLast grown.nextSlot =
      (((started.setNext started.last grown.nextSlot).setLast grown.nextSlot).setPrev
        alwaysEmptyIndex grown.nextSlot).setNext grown.nextSlot alwaysEmptyIndex := by
    rw [started_last, linked]
    rfl
  unfold insertThing
  rw [resized, built]
  rfl

variable (here : index < grown.slots.length)
include here

/-- `insert_thing_after` puts the item behind the slot. -/
theorem insertThingAfter_eq (onward : grown.next index < grown.slots.length) :
    ∃ c', c.insertThingAfter granted thing index = (some grown.nextSlot, c'.counted) ∧
      Placed grown thing index (grown.next index) c' ∧
      c'.last = if grown.last = index then grown.nextSlot else grown.last := by
  let occupied := (grown.occupy thing).setPrev grown.nextSlot index
  let linked := ((occupied.setNext grown.nextSlot (occupied.next index)).setNext index
    grown.nextSlot).setPrev (occupied.next index) grown.nextSlot
  have placed : Placed grown thing index (grown.next index) linked := by
    have next : occupied.next index = grown.next index := by
      simp [occupied, inside]
    simp only [linked, next]
    constructor
    · simp [occupied]
    · rfl
    · rfl
    · rfl
    · simp [occupied, inside, here, onward]
    · rfl
    · simp [occupied, inside, here, onward]
    · simp [occupied, inside, here, onward]
  refine ⟨if linked.last = index then linked.setLast grown.nextSlot else linked, ?_, ?_, ?_⟩
  · unfold insertThingAfter
    rw [resized]
  · split
    · exact placed.setLast _
    · exact placed
  · change _ = if linked.last = index then grown.nextSlot else linked.last
    split <;> rfl

/-- `insert_thing_before` puts the item in front of the slot. -/
theorem insertThingBefore_eq (onward : grown.prev index < grown.slots.length) :
    ∃ c', c.insertThingBefore granted thing index = (some grown.nextSlot, c'.counted) ∧
      Placed grown thing (grown.prev index) index c' ∧ c'.last = grown.last := by
  let occupied := grown.occupy thing
  let linked := (((occupied.setNext grown.nextSlot index).setPrev grown.nextSlot
    (occupied.prev index)).setPrev index grown.nextSlot).setNext (occupied.prev index)
    grown.nextSlot
  have placed : Placed grown thing (grown.prev index) index linked := by
    have prev : occupied.prev index = grown.prev index := congrFun (prev_occupy inside) index
    simp only [linked, prev]
    constructor
    · simp [occupied]
    · rfl
    · rfl
    · rfl
    · simp [occupied, inside, here, onward]
    · rfl
    · simp [occupied, inside, here, onward]
    · simp [occupied, inside, here, onward]
  refine ⟨linked, ?_, placed, rfl⟩
  unfold insertThingBefore
  rw [resized]

end

theorem insertThing_eq_none (full : c.canInsert granted = false) :
    c.insertThing granted thing = (none, c) := by
  unfold insertThing
  rw [checkAndResize_eq_none_iff.mpr full]

end

namespace Represents

variable {c c' : ItemContainer κ T} {order before after : List Nat}
  {list front back : List (Item κ T)} {thing there : Item κ T} {granted : Bool} {i index : Nat}

/-- The link back from slot 0 after an item was put in front of slot `n`. -/
theorem prev_zero_of_placed (rep : c.Represents order list) {p n : Nat}
    (placed : Placed c thing p n c') :
    c'.counted.prev 0 = if n = 0 then c.nextSlot else c.prev 0 := by
  change c'.prev 0 = _
  rw [placed.prev]
  by_cases closing : n = 0
  · rw [closing, update_self, if_pos rfl]
  · have other : 0 ≠ c.nextSlot := (Nat.ne_of_gt rep.nextSlot_pos).symm
    rw [update_of_ne (Ne.symm closing), update_of_ne other, if_neg closing]

/-- `insert_thing` appends the item, if `last` is the last slot. -/
theorem insertThing (rep : c.Represents order list) (tail : c.last = order.getLastD 0)
    (fresh : c.map thing.id = 0) (able : c.canInsert granted = true) :
    ∃ i c', c.insertThing granted thing = (some i, c') ∧
      c'.Represents (order ++ [i]) (list ++ [thing]) ∧ c'.last = i ∧ c'.prev 0 = i := by
  obtain ⟨grown, resized⟩ := exists_checkAndResize able
  obtain ⟨grew, inside⟩ := rep.checkAndResize resized
  have same := resized_of_checkAndResize resized
  have tail' : grown.last = order.getLastD 0 := same.last.trans tail
  obtain ⟨within, apart⟩ := grew.inside_of_mem (tail' ▸ getLastD_mem_cons)
  obtain ⟨c', done, placed, last⟩ :=
    insertThing_eq thing resized (grew.size ▸ inside) within apart grew.nextSlot_pos
  refine ⟨grown.nextSlot, c'.counted, done, ?_, last, ?_⟩
  · rw [tail'] at placed
    have unsplit : grown.Represents (order ++ []) (list ++ []) := by simpa using grew
    exact unsplit.counted rep.length_list.symm inside (same.map ▸ fresh) placed
  · exact (grew.prev_zero_of_placed placed).trans (if_pos rfl)

/-- `insert_thing_after` puts the item behind the one in the slot. -/
theorem insertThingAfter (rep : c.Represents (before ++ index :: after) (front ++ there :: back))
    (cut : before.length = front.length) (fresh : c.map thing.id = 0)
    (able : c.canInsert granted = true) :
    ∃ i c', c.insertThingAfter granted thing index = (some i, c') ∧
      c'.Represents (before ++ index :: i :: after) (front ++ there :: thing :: back) ∧
      c'.last = (if c.last = index then i else c.last) ∧
      c'.prev 0 = if after = [] then i else c.prev 0 := by
  obtain ⟨grown, resized⟩ := exists_checkAndResize able
  obtain ⟨grew, inside⟩ := rep.checkAndResize resized
  have same := resized_of_checkAndResize resized
  have here : index ∈ 0 :: (before ++ index :: after) := by simp
  obtain ⟨c', done, placed, last⟩ :=
    insertThingAfter_eq thing resized (grew.size ▸ inside) (grew.inside_of_mem here).1
      (grew.inside_of_mem grew.next_mem).1
  rw [grew.linked.next_eq] at placed
  refine ⟨grown.nextSlot, c'.counted, done, ?_, ?_, ?_⟩
  · have split : grown.Represents ((before ++ [index]) ++ after) ((front ++ [there]) ++ back) := by
      simpa using grew
    have placed : Placed grown thing ((before ++ [index]).getLastD 0) (after.headD 0) c' := by
      simpa using placed
    have counted := split.counted (by simpa using cut) inside (same.map ▸ fresh) placed
    simpa using counted
  · rw [← same.last]
    exact last
  · rw [grew.prev_zero_of_placed placed, same.prev]
    apply if_congr _ rfl rfl
    apply headD_eq_zero_iff
    intro mem
    exact rep.zero_not_mem (by simp [mem])

/-- `insert_first` puts the item in front of all others.  In an empty container
it needs the link back from slot 0 to lead to slot 0. -/
theorem insertThingBefore (rep : c.Represents order list)
    (closed : order = [] → c.prev 0 = 0) (fresh : c.map thing.id = 0)
    (able : c.canInsert granted = true) :
    ∃ i c', c.insertThingBefore granted thing (c.next 0) = (some i, c') ∧
      c'.Represents (i :: order) (thing :: list) ∧ c'.last = c.last ∧
      c'.prev 0 = if order = [] then i else c.prev 0 := by
  obtain ⟨grown, resized⟩ := exists_checkAndResize able
  obtain ⟨grew, inside⟩ := rep.checkAndResize resized
  have same := resized_of_checkAndResize resized
  have first : c.next 0 = order.headD 0 := rep.linked.next_sentinel
  have here : order.headD 0 ∈ 0 :: order := headD_mem order 0
  have prev : grown.prev (order.headD 0) = 0 := by
    cases order with
    | nil => exact same.prev ▸ closed rfl
    | cons a rest =>
      have linked : Linked grown.next grown.prev 0 ([] ++ a :: rest) := grew.linked
      exact linked.prev_eq
  have back : grown.prev (order.headD 0) < grown.slots.length := by
    rw [prev]
    exact (grew.inside_of_mem mem_cons_self).1
  obtain ⟨c', done, placed, last⟩ :=
    insertThingBefore_eq thing resized (grew.size ▸ inside) (grew.inside_of_mem here).1 back
  rw [prev] at placed
  rw [first]
  refine ⟨grown.nextSlot, c'.counted, done, ?_, last.trans same.last, ?_⟩
  · have split : grown.Represents ([] ++ order) ([] ++ list) := grew
    exact split.counted rfl inside (same.map ▸ fresh) placed
  · rw [grew.prev_zero_of_placed placed, same.prev]
    exact if_congr (headD_eq_zero_iff rep.zero_not_mem) rfl rfl

end Represents

/-! ## Taking an item out -/

/-- The item of the slot is taken out.  The link back from the slot behind it is
not written if the slot was `last`. -/
structure Unlinked (c : ItemContainer κ T) (thing : Item κ T) (index : Nat)
    (c' : ItemContainer κ T) : Prop where
  size : c'.slots.length = c.slots.length
  max : c'.max = c.max
  num : c'.num = c.num
  nextSlot : c'.nextSlot = c.nextSlot
  item : c'.item = update c.item index none
  map : c'.map = update c.map thing.id 0
  next : c'.next = update (update c.next index 0) (c.prev index) (c.next index)
  prev : c'.prev =
    if c.last = index then update c.prev index 0
    else update (update c.prev index 0) (c.next index) (c.prev index)
  last : c'.last = if c.last = index then c.prev index else c.last

theorem unlinked_unlinkSlot {c : ItemContainer κ T} {index : Nat}
    (held : c.item index = some thing) (inside : index < c.slots.length)
    (back : c.prev index < c.slots.length) (onward : c.next index < c.slots.length) :
    Unlinked c thing index (c.unlinkSlot index) := by
  let emptied := ((((c.setMap thing.id 0).setPrev index 0).setNext index 0).setItem index
    none).setNext (c.prev index) (c.next index)
  have unlinked : c.unlinkSlot index =
      if c.last = index then emptied.setLast (c.prev index)
      else emptied.setPrev (c.next index) (c.prev index) := by
    unfold unlinkSlot
    rw [held]
    rfl
  have size : emptied.slots.length = c.slots.length := by
    simp [emptied, setMap]
  have inside' : index < (c.setMap thing.id 0).slots.length := inside
  have back' : c.prev index < (c.setMap thing.id 0).slots.length := back
  have item : emptied.item = update c.item index none := by
    simp [emptied, inside', back']
    rfl
  have next : emptied.next =
      update (update c.next index 0) (c.prev index) (c.next index) := by
    simp [emptied, inside', back']
    rfl
  have prev : emptied.prev = update c.prev index 0 := by
    simp [emptied, inside', back']
    rfl
  rw [unlinked]
  by_cases tail : c.last = index
  · rw [if_pos tail]
    exact
      { size := size
        max := rfl
        num := rfl
        nextSlot := rfl
        item := item
        map := rfl
        next := next
        prev := prev.trans (if_pos tail).symm
        last := (if_pos tail).symm }
  · rw [if_neg tail]
    exact
      { size := (length_setPrev ..).trans size
        max := rfl
        num := rfl
        nextSlot := rfl
        item := (item_setPrev emptied _ (size ▸ onward)).trans item
        map := rfl
        next := (next_setPrev emptied _ (size ▸ onward)).trans next
        prev := by
          rw [prev_setPrev emptied _ (size ▸ onward), prev, if_neg tail]
        last := (if_neg tail).symm }

namespace Represents

variable {c : ItemContainer κ T} {before after : List Nat} {front back : List (Item κ T)}
  {thing : Item κ T} {index : Nat}

variable (rep : c.Represents (before ++ index :: after) (front ++ thing :: back))
  (cut : before.length = front.length)
include rep cut

theorem unlinkSlot : Unlinked c thing index (c.unlinkSlot index) := by
  have here : index ∈ 0 :: (before ++ index :: after) := by simp
  exact unlinked_unlinkSlot (rep.item_eq cut) (rep.inside_of_mem here).1
    (rep.inside_of_mem rep.prev_mem).1 (rep.inside_of_mem rep.next_mem).1

/-- The links around a slot that is taken out. -/
theorem linked_unlinkSlot (tail : c.last = index → after = []) :
    Linked (c.unlinkSlot index).next (c.unlinkSlot index).prev 0 (before ++ after) := by
  have unlinked := rep.unlinkSlot cut
  have next := rep.linked.next_eq
  have prev := rep.linked.prev_eq
  have nonzero : 0 ≠ index := (rep.ne_zero_of_mem (by simp)).symm
  have other : ∀ i ∈ before ++ after, i ≠ index := by
    rintro i mem rfl
    exact (nodup_cons.mp (nodup_middle.mp rep.nodup)).1 mem
  rw [unlinked.next, unlinked.prev]
  apply rep.linked.remove
  · rw [prev, update_self, next]
  · intro y mem apart
    have elsewhere : y ≠ index := (forall_mem_cons (p := (· ≠ index))).mpr ⟨nonzero, other⟩ y mem
    rw [prev, update_of_ne apart, update_of_ne elsewhere]
  · intro more
    rw [if_neg (fun last => more (tail last)), next, update_self, prev]
  · intro y mem apart
    split
    · exact update_of_ne (other y mem) _ _
    · rw [next, update_of_ne apart, update_of_ne (other y mem)]

/-- The item of a slot is removed; the others stay in their order. -/
theorem removed (tail : c.last = index → after = []) :
    (c.removed index).Represents (before ++ after) (front ++ back) := by
  have unlinked := rep.unlinkSlot cut
  have mem_order : ∀ i, i ∈ before ++ after ↔ i ∈ before ++ index :: after ∧ i ≠ index := by
    have apart := (nodup_cons.mp (nodup_middle.mp rep.nodup)).1
    intro i
    have other : i ∈ before ++ after → i ≠ index := fun mem same => apart (same ▸ mem)
    rw [perm_middle.mem_iff, mem_cons]
    tauto
  have index_mem : index ∈ before ++ index :: after := by simp
  have cursor : (c.removed index).nextSlot = if index < c.nextSlot then index else c.nextSlot := by
    change (if index < (c.unlinkSlot index).nextSlot then _ else _) = _
    rw [unlinked.nextSlot]
  have num : (c.removed index).num = c.num - 1 := congrArg (· - 1) unlinked.num
  have length : c.num = (before ++ after).length + 1 := by
    rw [rep.num]
    simp only [length_append, length_cons]
    omega
  exact
    { size := unlinked.size.trans (rep.size.trans unlinked.max.symm)
      linked := rep.linked_unlinkSlot cut tail
      inside := by
        intro i mem
        change i < (c.unlinkSlot index).max
        rw [unlinked.max]
        exact rep.inside i ((mem_order i).mp mem).1
      items := by
        change List.map (c.unlinkSlot index).item _ = _
        have items := rep.items
        rw [map_append, map_append, map_cons, map_cons] at items
        obtain ⟨fronts, rests⟩ := append_inj items (by simpa using cut)
        have backs := (cons.inj rests).2
        have kept : ∀ i ∈ before ++ after, (c.unlinkSlot index).item i = c.item i := by
          intro i mem
          rw [unlinked.item, update_of_ne ((mem_order i).mp mem).2]
        rw [map_congr_left kept, map_append, map_append, fronts, backs]
      vacant := by
        intro i outside
        change (c.unlinkSlot index).item i = none
        rw [unlinked.item]
        by_cases here : i = index
        · rw [here, update_self]
        · rw [update_of_ne here]
          exact rep.vacant i fun mem => outside ((mem_order i).mpr ⟨mem, here⟩)
      mapped := by
        intro id i nonzero
        change (c.unlinkSlot index).map id = i ↔ ∃ ptr, (c.unlinkSlot index).item i = _
        rw [unlinked.map, unlinked.item,
          ← mapped_update_iff (update_self index none c.item) (update_self ..) id nonzero,
          update_idem, update_idem, update_eq_self_iff.mpr (rep.map_eq cut).symm,
          update_eq_self_iff.mpr (rep.item_eq cut).symm]
        exact rep.mapped id i nonzero
      num := by
        omega
      room := by
        change (c.removed index).num + 1 ≤ (c.unlinkSlot index).max
        have room := rep.room
        rw [num, unlinked.max]
        omega
      nextSlot_pos := by
        rw [cursor]
        split
        · exact Nat.pos_of_ne_zero (rep.ne_zero_of_mem index_mem)
        · exact rep.nextSlot_pos
      nextSlot_le := by
        change (c.removed index).nextSlot ≤ (c.unlinkSlot index).max
        rw [cursor, unlinked.max]
        split
        · exact Nat.le_of_lt (rep.inside index index_mem)
        · exact rep.nextSlot_le
      nextSlot_free := by
        rw [cursor, mem_order]
        split
        · exact fun mem => mem.2 rfl
        · exact fun mem => rep.nextSlot_free mem.1
      before_nextSlot := by
        intro i positive lt
        rw [cursor] at lt
        split at lt
        · exact (mem_order i).mpr ⟨rep.before_nextSlot i positive (by omega), by omega⟩
        · exact (mem_order i).mpr ⟨rep.before_nextSlot i positive lt, by omega⟩ }

theorem removeThingFromIndex_eq : c.removeThingFromIndex index = (true, c.removed index) := by
  unfold removeThingFromIndex
  rw [if_neg]
  rw [rep.item_eq cut]
  exact Option.some_ne_none _

theorem last_removed :
    (c.removed index).last = if c.last = index then before.getLastD 0 else c.last := by
  rw [← rep.linked.prev_eq]
  exact (rep.unlinkSlot cut).last

/-- The link back from slot 0 follows a removal at the end, unless the slot was
`last`. -/
theorem prev_zero_removed :
    (c.removed index).prev 0 =
      if c.last ≠ index ∧ after = [] then before.getLastD 0 else c.prev 0 := by
  change (c.unlinkSlot index).prev 0 = _
  have nonzero : 0 ≠ index := (rep.ne_zero_of_mem (by simp)).symm
  have outside : 0 ∉ after := fun mem => rep.zero_not_mem (by simp [mem])
  rw [(rep.unlinkSlot cut).prev, rep.linked.next_eq, rep.linked.prev_eq]
  by_cases tail : c.last = index
  · rw [if_pos tail, if_neg fun both => both.1 tail, update_of_ne nonzero]
  · rw [if_neg tail]
    by_cases none : after = []
    · rw [if_pos ⟨tail, none⟩, (headD_eq_zero_iff outside).mpr none, update_self]
    · have closed : 0 ≠ after.headD 0 := fun zero => none ((headD_eq_zero_iff outside).mp zero.symm)
      rw [if_neg fun both => none both.2, update_of_ne closed, update_of_ne nonzero]

end Represents

end ItemContainer

end Torque.Container
