import Torque.Structure.Rings
import Torque.Transition.Run

/-!
# Linked lists

The entries of a list, and its head, each point to the next and to the prior one; an entry that
is in no list points to itself.  Every entry also points to the object it belongs to, the head
to nothing.

The functions change the pointers one after the other, and what is read has to take account of
what has been written.  They fail if a null pointer is followed, or if an assertion is not met;
the assertions of `insert_link` are left out of the code if it is compiled with `NDEBUG`.
-/

namespace Torque.Container

open Torque.Structure Function

universe u

/-- What a `void *` points to: an object, or an entry itself. -/
abbrev Object (ι : Type u) (ο : Type u) := ο ⊕ ι

/-- The `list_link`s of a program: `ll_next`, `ll_prior` and `ll_struct`. -/
structure Links (ι : Type u) (ο : Type u) where
  next : ι → Option ι
  prior : ι → Option ι
  struct_ : ι → Option (Object ι ο)

/-- `LINK_INSET_BEFORE` and `LINK_INSET_AFTER`. -/
inductive Position where
  | before
  | after
  deriving DecidableEq, Repr

namespace Links

variable {ι : Type u} {ο : Type u} [DecidableEq ι]

section

variable (links : Links ι ο) (entry : ι)

/-- `ll_next` of one link is written. -/
def setNext (next : Option ι) : Links ι ο :=
  { links with next := update links.next entry next }

/-- `ll_prior` of one link is written. -/
def setPrior (prior : Option ι) : Links ι ο :=
  { links with prior := update links.prior entry prior }

/-- `ll_struct` of one link is written. -/
def setStruct (object : Option (Object ι ο)) : Links ι ο :=
  { links with struct_ := update links.struct_ entry object }

end

section

variable (links : Links ι ο) (entry : ι) (pointer : Option ι) (object : Option (Object ι ο))

@[simp]
theorem next_setNext : (links.setNext entry pointer).next = update links.next entry pointer :=
  rfl

@[simp]
theorem prior_setNext : (links.setNext entry pointer).prior = links.prior :=
  rfl

@[simp]
theorem next_setPrior : (links.setPrior entry pointer).next = links.next :=
  rfl

@[simp]
theorem prior_setPrior : (links.setPrior entry pointer).prior = update links.prior entry pointer :=
  rfl

@[simp]
theorem prior_setStruct : (links.setStruct entry object).prior = links.prior :=
  rfl

end

variable (links : Links ι ο)

/-- An entry never points to no object, which would make it appear to be the head. -/
def setObject (entry : ι) (pobj : Option (Object ι ο)) : Links ι ο :=
  links.setStruct entry (some (pobj.getD (.inr entry)))

/-- The assertion of `insert_link`. -/
def insertable (old : Option ι) (new : ι) (pobj : Option (Object ι ο)) : Bool :=
  pobj.isSome && old.isSome && (old.bind links.prior).isSome && (old.bind links.next).isSome &&
    decide (links.prior new = some new) && decide (links.next new = some new)

/-- `insert_link`. -/
def insertLink (ndebug : Bool) (links : Links ι ο) (old : Option ι) (new : ι)
    (pobj : Option (Object ι ο)) (position : Position) : Option (Links ι ο) := do
  if ndebug = false ∧ links.insertable old new pobj = false then none
  else
    let old ← old
    match position with
    | .after =>
      let links := links.setPrior new (some old)
      let links := links.setNext new (links.next old)
      let follower ← links.next old
      let links := links.setPrior follower (some new)
      let links := links.setNext old (some new)
      return links.setObject new pobj
    | .before =>
      let links := links.setNext new (some old)
      let links := links.setPrior new (links.prior old)
      let leader ← links.prior old
      let links := links.setNext leader (some new)
      let links := links.setPrior old (some new)
      return links.setObject new pobj

/-- `append_link`. -/
def appendLink (head new : ι) (pobj : Option (Object ι ο)) : Links ι ο :=
  let links := links.setObject new pobj
  let links := links.setPrior new (links.prior head)
  let links := links.setNext new (some head)
  let links := links.setPrior head (some new)
  match links.prior new with
  | some last => links.setNext last (some new)
  | none => links

/-- `delete_link`.  Neighbours that do not point back are left alone. -/
def deleteLink (old : ι) : Links ι ο :=
  let links := match links.prior old with
    | some prior =>
      if prior ≠ old ∧ links.next prior = some old then links.setNext prior (links.next old)
      else links
    | none => links
  let links := match links.next old with
    | some next =>
      if next ≠ old ∧ links.prior next = some old then links.setPrior next (links.prior old)
      else links
    | none => links
  (links.setNext old (some old)).setPrior old (some old)

/-- `swap_link`. -/
def swapLink (ndebug : Bool) (links : Links ι ο) (pone ptwo : ι) : Option (Links ι ο) :=
  if links.next pone = some ptwo then
    let links := links.deleteLink pone
    links.insertLink ndebug (some ptwo) pone (links.struct_ pone) .after
  else if links.next ptwo = some pone then
    let links := links.deleteLink ptwo
    links.insertLink ndebug (some pone) ptwo (links.struct_ ptwo) .after
  else do
    let p1p := links.prior pone
    let p2p := links.prior ptwo
    let links := links.deleteLink pone
    let links ← links.insertLink ndebug p2p pone (links.struct_ pone) .after
    let links := links.deleteLink ptwo
    links.insertLink ndebug p1p ptwo (links.struct_ ptwo) .after

/-- `CLEAR_HEAD`. -/
def clearHead (head : ι) : Links ι ο :=
  ((links.setNext head (some head)).setPrior head (some head)).setStruct head none

/-- `list_move`. -/
def listMove (source target : ι) : Option (Links ι ο) :=
  if links.next source = some source then
    some ((links.setNext target (some target)).setPrior target (some target))
  else do
    let links := links.setNext target (links.next source)
    let first ← links.next target
    let links := links.setPrior first (some target)
    let links := links.setPrior target (links.prior source)
    let last ← links.prior target
    let links := links.setNext last (some target)
    return links.clearHead source

end Links

/-! ## Sequences of calls -/

/-- The calls that change lists. -/
inductive LinkCall (ι : Type u) (ο : Type u) where
  | insert (old new : ι) (pobj : Option (Object ι ο)) (position : Position)
  | append (head new : ι) (pobj : Option (Object ι ο))
  | delete (old : ι)
  | swap (pone ptwo : ι)
  | move (source target : ι)

variable {ι : Type u} {ο : Type u} [DecidableEq ι] (ndebug : Bool)

/-- A call, in a state that has not failed. -/
def Links.call (links : Links ι ο) : LinkCall ι ο → Option (Links ι ο)
  | .insert old new pobj position => links.insertLink ndebug (some old) new pobj position
  | .append head new pobj => some (links.appendLink head new pobj)
  | .delete old => some (links.deleteLink old)
  | .swap pone ptwo => links.swapLink ndebug pone ptwo
  | .move source target => links.listMove source target

/-- Calls one after the other, as long as none fails. -/
def Links.calls (ndebug : Bool) (links : Links ι ο) (calls : List (LinkCall ι ο)) :
    Option (Links ι ο) :=
  calls.foldlM (Links.call ndebug) links

/-! ## What they are for -/

/-- The list of each head, and the object of each entry. -/
structure Lists (ι : Type u) (ο : Type u) where
  contents : ι → List ι
  struct_ : ι → Option (Object ι ο)

namespace Lists

variable (lists : Lists ι ο)

/-- A new entry gets its object, or is its own. -/
def withObject (entry : ι) (pobj : Option (Object ι ο)) : ι → Option (Object ι ο) :=
  update lists.struct_ entry (some (pobj.getD (.inr entry)))

/-- What a call does to the lists: the entry goes behind or in front of an old one (behind the
head means first, in front of the head means last), is put at the end, or is taken out; two
entries change places, wherever they are; a list gets another head. -/
def call : LinkCall ι ο → Lists ι ο
  | .insert old new pobj .after =>
    { contents := fun h =>
        (lists.contents h).insertIdx ((h :: lists.contents h).idxOf old) new
      struct_ := lists.withObject new pobj }
  | .insert old new pobj .before =>
    { contents := fun h =>
        (lists.contents h).insertIdx ((lists.contents h ++ [h]).idxOf old) new
      struct_ := lists.withObject new pobj }
  | .append head new pobj =>
    { contents := update lists.contents head (lists.contents head ++ [new])
      struct_ := lists.withObject new pobj }
  | .delete old => { lists with contents := fun h => (lists.contents h).erase old }
  | .swap pone ptwo => { lists with contents := fun h => (lists.contents h).map (Equiv.swap pone ptwo) }
  | .move source target =>
    { contents := update (update lists.contents target (lists.contents source))
        source []
      struct_ := if lists.contents source = [] then lists.struct_
        else update lists.struct_ source none }

variable (heads : ι → Prop)

/-- The entry is in some list. -/
def Linked (lists : Lists ι ο) (entry : ι) : Prop :=
  ∃ h, heads h ∧ entry ∈ lists.contents h

/-- What may be asked: new entries are in no list, and nothing is put next to an entry that is in
none; two different entries of lists are swapped; a list is moved to an empty one.  Without
`NDEBUG`, an entry is inserted with an object. -/
def Allowed (lists : Lists ι ο) : LinkCall ι ο → Prop
  | .insert old new pobj _ =>
    Placed heads lists.contents old ∧ ¬ Placed heads lists.contents new ∧
      (ndebug = false → pobj ≠ none)
  | .append head new _ => heads head ∧ ¬ Placed heads lists.contents new
  | .delete old => ¬ heads old
  | .swap pone ptwo => pone ≠ ptwo ∧ lists.Linked heads pone ∧ lists.Linked heads ptwo
  | .move source target => heads source ∧ heads target ∧ lists.contents target = []

/-- The call is about the list of this head. -/
def Mentions (h : ι) : LinkCall ι ο → Prop
  | .insert old _ _ _ => old ∈ h :: lists.contents h
  | .append head _ _ => h = head
  | .delete old => old ∈ lists.contents h
  | .swap pone ptwo => pone ∈ lists.contents h ∨ ptwo ∈ lists.contents h
  | .move source target => h = source ∨ h = target

end Lists

/-- The links are those of the lists: `next` and `prior` are inverse to each other, lead through
each list from its head to its head, and from every other entry to itself. -/
structure Represents (heads : ι → Prop) (σ : Equiv.Perm ι) (lists : Lists ι ο) (links : Links ι ο) :
    Prop where
  next : links.next = fun entry => some (σ entry)
  prior : links.prior = fun entry => some (σ.symm entry)
  struct_ : links.struct_ = lists.struct_
  rings : Rings heads lists.contents σ
  objects : ∀ entry, lists.Linked heads entry → lists.struct_ entry ≠ none

end Torque.Container
