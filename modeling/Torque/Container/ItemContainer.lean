import Mathlib.Data.List.Basic

/-!
# Item containers

An `item_container` keeps its items in an array of slots.  Slot 0 never holds an
item; the others are linked from it in the order of the items, in both
directions.  A map leads from the id of an item to its slot, and `next_slot` is
where the next item goes.

The items are pointers that are not null; a null pointer that a function returns
is `none`.  An id that the map does not know is mapped to slot 0, which is also
what reading it in the source does.  Growing the array may fail; whether the
memory is granted is an argument of every insertion.  The functions are those of
a process that has not begun to exit.
-/

namespace Torque.Container

universe u v

/-- `ALWAYS_EMPTY_INDEX`. -/
def alwaysEmptyIndex : Nat := 0

/-- `item`: what is stored, under its id. -/
structure Item (κ : Type u) (T : Type v) where
  id : κ
  ptr : T
  deriving DecidableEq, Repr

/-- `slot`, with the indices of its neighbours in the list. -/
structure Slot (κ : Type u) (T : Type v) where
  pItem : Option (Item κ T)
  next : Nat
  prev : Nat
  deriving DecidableEq, Repr

/-- A slot of which all bytes are zero. -/
def Slot.zero {κ : Type u} {T : Type v} : Slot κ T :=
  ⟨none, 0, 0⟩

/-- `item_container`.  The map leads to slot 0 for an id that is not known. -/
structure ItemContainer (κ : Type u) (T : Type v) where
  slots : List (Slot κ T)
  map : κ → Nat
  max : Nat
  num : Nat
  nextSlot : Nat
  last : Nat

namespace ItemContainer

variable {κ : Type u} {T : Type v}

/-- `item_container()`. -/
def empty : ItemContainer κ T where
  slots := List.replicate 10 Slot.zero
  map := fun _ => alwaysEmptyIndex
  max := 10
  num := 0
  nextSlot := 1
  last := 0

section

variable (c : ItemContainer κ T)

section

variable (index : Nat)

/-- The slot at an index. -/
def slot : Slot κ T :=
  c.slots.getD index Slot.zero

/-- The item in a slot. -/
def item : Option (Item κ T) :=
  (c.slot index).pItem

/-- The slot behind. -/
def next : Nat :=
  (c.slot index).next

/-- The slot in front. -/
def prev : Nat :=
  (c.slot index).prev

/-! ## Writing -/

/-- Another item is put into a slot. -/
def setItem (pItem : Option (Item κ T)) : ItemContainer κ T :=
  { c with slots := c.slots.modify index fun slot => { slot with pItem := pItem } }

/-- Another slot comes behind. -/
def setNext (next : Nat) : ItemContainer κ T :=
  { c with slots := c.slots.modify index fun slot => { slot with next := next } }

/-- Another slot comes in front. -/
def setPrev (prev : Nat) : ItemContainer κ T :=
  { c with slots := c.slots.modify index fun slot => { slot with prev := prev } }

end

/-- The id leads to the slot. -/
def setMap [DecidableEq κ] (c : ItemContainer κ T) (id : κ) (index : Nat) : ItemContainer κ T :=
  { c with map := Function.update c.map id index }

/-- Another slot is the last one. -/
def setLast (last : Nat) : ItemContainer κ T :=
  { c with last := last }

/-! ## Inserting -/

/-- `check_and_resize`; `none` if the memory is not granted. -/
def checkAndResize (granted : Bool) (c : ItemContainer κ T) : Option (ItemContainer κ T) :=
  if c.max = c.num + 1 then
    if granted then
      some { c with
        slots := c.slots ++ List.replicate c.max Slot.zero
        max := c.max * 2 }
    else none
  else some c

/-- The loop of `update_next_slot`, which ends at `max`. -/
def skipOccupied (c : ItemContainer κ T) : Nat → Nat → Nat
  | 0, index => index
  | left + 1, index =>
    if (c.item index).isSome then skipOccupied c left (index + 1) else index

/-- `update_next_slot`. -/
def updateNextSlot : ItemContainer κ T :=
  { c with nextSlot := c.skipOccupied (c.max - c.nextSlot) c.nextSlot }

/-- An item has come in: it is counted, and the next one goes elsewhere. -/
def counted : ItemContainer κ T :=
  { c with num := c.num + 1 }.updateNextSlot

end

section

variable [DecidableEq κ] (c : ItemContainer κ T)

/-- The item is put into `next_slot`. -/
def occupy (thing : Item κ T) : ItemContainer κ T :=
  (c.setItem c.nextSlot (some thing)).setMap thing.id c.nextSlot

variable (granted : Bool)

/-- `insert_thing`, with the index or `none` for -1. -/
def insertThing (thing : Item κ T) (c : ItemContainer κ T) : Option Nat × ItemContainer κ T :=
  match c.checkAndResize granted with
  | none => (none, c)
  | some c =>
    let rc := c.nextSlot
    let c := (c.occupy thing).setPrev rc c.last
    let c := if c.last = alwaysEmptyIndex then c.setNext alwaysEmptyIndex rc else c
    let c := (c.setNext c.last rc).setLast rc
    let c := (c.setPrev alwaysEmptyIndex c.last).setNext rc alwaysEmptyIndex
    (some rc, c.counted)

section

variable (thing : Item κ T) (index : Nat) (c : ItemContainer κ T)

/-- `insert_thing_after`. -/
def insertThingAfter : Option Nat × ItemContainer κ T :=
  match c.checkAndResize granted with
  | none => (none, c)
  | some c =>
    let rc := c.nextSlot
    let c := (c.occupy thing).setPrev rc index
    let next := c.next index
    let c := ((c.setNext rc next).setNext index rc).setPrev next rc
    let c := if c.last = index then c.setLast rc else c
    (some rc, c.counted)

/-- `insert_thing_before`; `last` stays as it is. -/
def insertThingBefore : Option Nat × ItemContainer κ T :=
  match c.checkAndResize granted with
  | none => (none, c)
  | some c =>
    let rc := c.nextSlot
    let c := c.occupy thing
    let prev := c.prev index
    let c := (((c.setNext rc index).setPrev rc prev).setPrev index rc).setNext prev rc
    (some rc, c.counted)

end

/-! ## Removing -/

/-- `unlink_slot`.  The link back from slot 0 is not updated when the last item
goes.  An empty slot is not unlinked by any caller. -/
def unlinkSlot (index : Nat) : ItemContainer κ T :=
  match c.item index with
  | none => c
  | some thing =>
    let prev := c.prev index
    let next := c.next index
    let c := c.setMap thing.id alwaysEmptyIndex
    let c := (c.setPrev index alwaysEmptyIndex).setNext index alwaysEmptyIndex
    let c := (c.setItem index none).setNext prev next
    if c.last = index then c.setLast prev else c.setPrev next prev

/-- What every removal does: unlink, count, and note the slot if it is in front
of `next_slot`. -/
def removed (index : Nat) : ItemContainer κ T :=
  let c := c.unlinkSlot index
  { c with num := c.num - 1, nextSlot := if index < c.nextSlot then index else c.nextSlot }

/-- `remove_thing_from_index`, with whether the slot held an item. -/
def removeThingFromIndex (index : Nat) : Bool × ItemContainer κ T :=
  if c.item index = none then (false, c) else (true, c.removed index)

/-- `pop_thing`. -/
def pop : Option T × ItemContainer κ T :=
  let index := c.next alwaysEmptyIndex
  if index ≠ alwaysEmptyIndex then ((c.item index).map Item.ptr, c.removed index) else (none, c)

/-- `pop_back_thing`; `none` if the function dereferences the null pointer of a
slot that holds no item. -/
def popBack : Option (Option T × ItemContainer κ T) :=
  let index := c.prev alwaysEmptyIndex
  if index ≠ alwaysEmptyIndex then
    match c.item index with
    | some thing => some (some thing.ptr, c.removed index)
    | none => none
  else some (none, c)

/-! ## The public functions -/

/-- `insert`; an item of the same id is kept, or replaced. -/
def insert (it : T) (id : κ) (replace : Bool) (c : ItemContainer κ T) : Bool × ItemContainer κ T :=
  let index := c.map id
  if index ≠ alwaysEmptyIndex ∧ replace = false then (false, c)
  else
    let c := if index ≠ alwaysEmptyIndex then (c.removeThingFromIndex index).2 else c
    let done := c.insertThing granted ⟨id, it⟩
    (done.1.isSome, done.2)

/-- `insert_after`. -/
def insertAfter (locationId : κ) (it : T) (id : κ) (c : ItemContainer κ T) :
    Bool × ItemContainer κ T :=
  let index := c.map locationId
  if index = alwaysEmptyIndex then (false, c)
  else
    let done := c.insertThingAfter granted ⟨id, it⟩ index
    (done.1.isSome, done.2)

/-- `insert_first`, which is `insert_at` for position 0. -/
def insertFirst (it : T) (id : κ) (c : ItemContainer κ T) : Bool × ItemContainer κ T :=
  let done := c.insertThingBefore granted ⟨id, it⟩ (c.next alwaysEmptyIndex)
  (done.1.isSome, done.2)

/-- `remove`, by id. -/
def remove (id : κ) : Bool × ItemContainer κ T :=
  let index := c.map id
  if index = alwaysEmptyIndex then (false, c) else c.removeThingFromIndex index

/-- `find`. -/
def find (id : κ) : Option T :=
  let index := c.map id
  if index = alwaysEmptyIndex then none else (c.item index).map Item.ptr

/-- `swap`: two items change places. -/
def swap (id1 id2 : κ) : Bool × ItemContainer κ T :=
  let ind1 := c.map id1
  let ind2 := c.map id2
  if ind1 = alwaysEmptyIndex ∨ ind2 = alwaysEmptyIndex ∨ ind1 = ind2 then (false, c)
  else
    let pTmp := c.item ind1
    let c := (c.setItem ind1 (c.item ind2)).setItem ind2 pTmp
    (true, (c.setMap id1 ind2).setMap id2 ind1)

/-- The map without the ids of the items in the slots. -/
def eraseIds : List (Slot κ T) → (κ → Nat) → κ → Nat
  | [], map => map
  | slot :: slots, map =>
    match slot.pItem with
    | some thing => eraseIds slots (Function.update map thing.id alwaysEmptyIndex)
    | none => eraseIds slots map

/-- `clear`. -/
def clear : ItemContainer κ T :=
  { c with
    slots := c.slots.map fun _ => Slot.zero
    map := eraseIds c.slots c.map
    num := 0
    nextSlot := 1
    last := 0 }

end

variable (c : ItemContainer κ T)

/-- `count`. -/
def count : Nat :=
  c.num

/-! ## Iterating -/

/-- An `item_iterator`. -/
structure ItemIterator where
  iter : Nat
  endHit : Bool
  reversed : Bool

/-- `get_iterator`, with `initialize_ra_iterator`. -/
def getIterator (reverse : Bool) : ItemIterator where
  iter := if reverse then c.prev alwaysEmptyIndex else c.next alwaysEmptyIndex
  endHit := false
  reversed := reverse

/-- `get_next_item`, by `next_thing` or `next_thing_from_back`. -/
def getNextItem (it : ItemIterator) : Option T × ItemIterator :=
  if it.endHit then (none, it)
  else if it.iter = alwaysEmptyIndex then (none, { it with endHit := true })
  else
    let onward := { it with iter := if it.reversed then c.prev it.iter else c.next it.iter }
    match c.item it.iter with
    | none => (none, { onward with endHit := true })
    | some thing => (some thing.ptr, onward)

/-- The items that a loop over an iterator meets in so many rounds, or until the
end. -/
def collect (c : ItemContainer κ T) : Nat → ItemIterator → List T
  | 0, _ => []
  | rounds + 1, it =>
    match c.getNextItem it with
    | (none, _) => []
    | (some ptr, it) => ptr :: collect c rounds it

/-- The items in forward or reverse order. -/
def iterate (reverse : Bool) (rounds : Nat) : List T :=
  c.collect rounds (c.getIterator reverse)

end ItemContainer

end Torque.Container
