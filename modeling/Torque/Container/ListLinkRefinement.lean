import Torque.Container.ListLink
import Mathlib.Data.Fintype.Basic

/-!
# What the linked lists hold

Each function multiplies the permutation of the links by transpositions, and each list goes
through the corresponding change.
-/

namespace Torque.Container

open Torque.Structure Torque.Transition Function List

universe u

variable {ι : Type u} {ο : Type u} [DecidableEq ι]

/-- The links are a permutation and its inverse. -/
structure Follows (σ : Equiv.Perm ι) (links : Links ι ο) : Prop where
  next : links.next = fun entry => some (σ entry)
  prior : links.prior = fun entry => some (σ.symm entry)

namespace Follows

variable {σ : Equiv.Perm ι} {links : Links ι ο} {old new x : ι} {pobj : Option (Object ι ο)}
  {ndebug : Bool} {a b source target : ι}

omit [DecidableEq ι] in
theorem next_apply (follows : Follows σ links) (entry : ι) : links.next entry = some (σ entry) :=
  congrFun follows.next entry

omit [DecidableEq ι] in
theorem prior_apply (follows : Follows σ links) (entry : ι) :
    links.prior entry = some (σ.symm entry) :=
  congrFun follows.prior entry

omit [DecidableEq ι] in
theorem symm_eq_self (still : σ new = new) : σ.symm new = new := by
  rw [Equiv.symm_apply_eq, still]

omit [DecidableEq ι] in
theorem symm_apply_ne (apart : σ b ≠ a) : σ.symm a ≠ b :=
  fun equal => apart ((Equiv.symm_apply_eq σ).mp equal).symm

/-- The assertion is met. -/
theorem insertable (follows : Follows σ links) (still : σ new = new) (object : pobj ≠ none) :
    links.insertable (some old) new pobj = true := by
  unfold Links.insertable
  simp [follows.next_apply, follows.prior_apply, still, symm_eq_self still,
    Option.isSome_iff_ne_none, object]

/-- The permutation after an entry has been put behind another one, in the order of its links. -/
theorem insert_function (still : σ new = new) (old : ι) :
    update (update (fun entry => some (σ entry)) new (some (σ old))) old
      (some new) = fun entry => some ((σ * Equiv.swap old new) entry) := by
  have swapped := Equiv.comp_swap_eq_update old new fun entry => some (σ entry)
  rw [still] at swapped
  exact swapped.symm

theorem symm_mul_swap (σ : Equiv.Perm ι) (a b : ι) :
    (σ * Equiv.swap a b).symm = σ.symm * Equiv.swap (σ a) (σ b) := by
  ext entry
  change Equiv.swap a b (σ.symm entry) = σ.symm (Equiv.swap (σ a) (σ b) entry)
  rw [Equiv.eq_symm_apply, Equiv.swap_apply_apply]
  rfl

/-- The links back are those of the inverse, with the entry behind `old` in its place. -/
theorem insert_function_symm (still : σ new = new) (old : ι) :
    update (update (fun entry => some (σ.symm entry)) new (some old)) (σ old)
      (some new) = fun entry => some ((σ * Equiv.swap old new).symm entry) := by
  have back := insert_function (symm_eq_self still) (σ old)
  rw [Equiv.symm_apply_apply] at back
  rw [symm_mul_swap, still]
  exact back

section

variable (follows : Follows σ links) (still : σ new = new)
include follows still

theorem passes (object : ndebug = false → pobj ≠ none) :
    ¬(ndebug = false ∧ links.insertable (some old) new pobj = false) := by
  rintro ⟨debug, fails⟩
  rw [follows.insertable still (object debug)] at fails
  cases fails

theorem insertLink_after (differ : old ≠ new) (object : ndebug = false → pobj ≠ none) :
    ∃ links', links.insertLink ndebug (some old) new pobj .after = some links' ∧
      Follows (σ * Equiv.swap old new) links' ∧
      links'.struct_ = update links.struct_ new (some (pobj.getD (.inr new))) := by
  have next := insert_function still old
  have prior := insert_function_symm still old
  have follower : update links.next new (links.next old) old = some (σ old) := by
    rw [update_of_ne differ, follows.next_apply]
  unfold Links.insertLink
  rw [if_neg (follows.passes still object)]
  simp only [Option.bind_eq_bind, Option.bind_some, Links.next_setNext, Links.next_setPrior, follower,
    Option.pure_def]
  refine ⟨_, rfl, ⟨?_, ?_⟩, rfl⟩
  · rw [← next, ← follows.next, ← follows.next_apply old]
    rfl
  · rw [← prior, ← follows.prior]
    rfl

theorem insertLink_before (differ : old ≠ new) (object : ndebug = false → pobj ≠ none) :
    ∃ links', links.insertLink ndebug (some old) new pobj .before = some links' ∧
      Follows (σ * Equiv.swap (σ.symm old) new) links' ∧
      links'.struct_ = update links.struct_ new (some (pobj.getD (.inr new))) := by
  have next := insert_function still (σ.symm old)
  have prior := insert_function_symm still (σ.symm old)
  rw [Equiv.apply_symm_apply] at next prior
  have leader : update links.prior new (links.prior old) old = some (σ.symm old) := by
    rw [update_of_ne differ, follows.prior_apply]
  unfold Links.insertLink
  rw [if_neg (follows.passes still object)]
  simp only [Option.bind_eq_bind, Option.bind_some, Links.prior_setNext, Links.prior_setPrior, leader,
    Option.pure_def]
  refine ⟨_, rfl, ⟨?_, ?_⟩, rfl⟩
  · rw [← next, ← follows.next]
    rfl
  · rw [← prior, ← follows.prior, ← follows.prior_apply old]
    rfl

/-- `append_link` puts the entry in front of the head. -/
theorem appendLink {head : ι} (differ : head ≠ new) (pobj : Option (Object ι ο)) :
    Follows (σ * Equiv.swap (σ.symm head) new) (links.appendLink head new pobj) ∧
      (links.appendLink head new pobj).struct_ =
        update links.struct_ new (some (pobj.getD (.inr new))) := by
  have next := insert_function still (σ.symm head)
  have prior := insert_function_symm still (σ.symm head)
  rw [Equiv.apply_symm_apply] at next prior
  have last : update (update links.prior new (links.prior head)) head (some new)
      new = some (σ.symm head) := by
    rw [update_of_ne (Ne.symm differ), update_self, follows.prior_apply]
  unfold Links.appendLink Links.setObject
  simp only [Links.prior_setNext, Links.prior_setPrior, Links.prior_setStruct, last]
  refine ⟨⟨?_, ?_⟩, rfl⟩
  · rw [← next, ← follows.next]
    rfl
  · rw [← prior, ← follows.prior, ← follows.prior_apply head]
    rfl

end

/-- The permutation after an entry has been taken out, in the order of its links. -/
theorem delete_function (σ : Equiv.Perm ι) (x : ι) :
    update (update (fun entry => some (σ entry)) (σ.symm x) (some (σ x))) x
      (some x) = fun entry => some ((σ * Equiv.swap (σ.symm x) x) entry) := by
  have swapped := Equiv.comp_swap_eq_update x (σ.symm x) fun entry => some (σ entry)
  rw [Equiv.apply_symm_apply, Equiv.swap_comm] at swapped
  exact swapped.symm

theorem delete_function_symm (σ : Equiv.Perm ι) (x : ι) :
    update (update (fun entry => some (σ.symm entry)) (σ x) (some (σ.symm x))) x
      (some x) = fun entry => some ((σ * Equiv.swap (σ.symm x) x).symm entry) := by
  rw [symm_mul_swap, Equiv.apply_symm_apply, Equiv.swap_comm]
  exact delete_function σ.symm x

theorem deleteLink (follows : Follows σ links) (x : ι) :
    Follows (σ * Equiv.swap (σ.symm x) x) (links.deleteLink x) ∧
      (links.deleteLink x).struct_ = links.struct_ := by
  unfold Links.deleteLink
  rw [follows.prior_apply]
  by_cases linked : σ x = x
  · -- an entry that points to itself stays as it is
    have back := symm_eq_self linked
    simp only [back, ne_eq, not_true_eq_false, false_and, if_false, follows.next_apply, linked,
      Equiv.swap_self]
    refine ⟨⟨?_, ?_⟩, rfl⟩
    · rw [Links.next_setPrior, Links.next_setNext, update_eq_iff]
      exact ⟨congrArg some linked.symm, fun _ _ => by rw [follows.next]; rfl⟩
    · rw [Links.prior_setPrior, Links.prior_setNext, update_eq_iff]
      exact ⟨congrArg some back.symm, fun _ _ => by rw [follows.prior]; rfl⟩
  · have next := delete_function σ x
    have prior := delete_function_symm σ x
    have apart := symm_apply_ne linked
    have onward : update links.next (σ.symm x) (links.next x) x = some (σ x) := by
      rw [update_of_ne (Ne.symm apart), follows.next_apply]
    simp only [ne_eq, apart, not_false_eq_true, follows.next_apply (σ.symm x), Equiv.apply_symm_apply,
      true_and, if_true, Links.next_setNext, Links.prior_setNext, onward, linked, follows.prior_apply (σ x),
      Equiv.symm_apply_apply]
    refine ⟨⟨?_, ?_⟩, rfl⟩
    · rw [← next, ← follows.next, ← follows.next_apply x]
      rfl
    · rw [← prior, ← follows.prior, ← follows.prior_apply x]
      rfl

/-! ### Two entries change places -/

/-- Two transpositions, as two entries that are next to each other change places. -/
theorem conj_swap (σ : Equiv.Perm ι) (a b : ι) :
    Equiv.swap a b * σ * (Equiv.swap a b)⁻¹ =
      σ * Equiv.swap (σ.symm a) (σ.symm b) * Equiv.swap a b := by
  congr 1
  rw [Equiv.mul_swap_eq_swap_mul, Equiv.apply_symm_apply, Equiv.apply_symm_apply]

/-- Four transpositions that amount to two, as two entries that are not next to each other change
places. -/
theorem swap_chain {p q : ι} (pq : p ≠ q) (pa : p ≠ a) (pb : p ≠ b) (qa : q ≠ a) (qb : q ≠ b)
    (ab : a ≠ b) :
    Equiv.swap p a * Equiv.swap q a * Equiv.swap a b * Equiv.swap p b =
      Equiv.swap p q * Equiv.swap a b := by
  ext x
  simp only [Equiv.Perm.mul_apply, Equiv.swap_apply_def]
  grind

/-- An entry that is inserted again keeps its object. -/
theorem update_struct_self {α : Type u} {struct_ : ι → Option α} {entry : ι}
    (object : struct_ entry ≠ none) (other : α) :
    update struct_ entry (some ((struct_ entry).getD other)) = struct_ := by
  obtain ⟨value, found⟩ := Option.ne_none_iff_exists'.mp object
  rw [found, Option.getD_some, ← found, update_eq_self]

/-- To take an entry out and put it behind another one. -/
theorem reinsert (follows : Follows σ links) (ndebug : Bool) (differ : b ≠ a)
    (object : links.struct_ a ≠ none) :
    ∃ links', (links.deleteLink a).insertLink ndebug (some b) a ((links.deleteLink a).struct_ a)
        .after = some links' ∧
      Follows (σ * Equiv.swap (σ.symm a) a * Equiv.swap b a) links' ∧
      links'.struct_ = links.struct_ := by
  obtain ⟨deleted, kept⟩ := follows.deleteLink a
  have still : (σ * Equiv.swap (σ.symm a) a) a = a := by
    rw [Rings.mul_swap_apply_right, Equiv.apply_symm_apply]
  rw [kept]
  obtain ⟨links', inserted, onward, objects⟩ :=
    deleted.insertLink_after still differ fun (_ : ndebug = false) => object
  refine ⟨links', inserted, onward, ?_⟩
  rw [objects, kept, update_struct_self object]

theorem swapLink (follows : Follows σ links) (differ : a ≠ b) (first : σ a ≠ a) (second : σ b ≠ b)
    (object : links.struct_ a ≠ none) (object' : links.struct_ b ≠ none) (ndebug : Bool) :
    ∃ links', links.swapLink ndebug a b = some links' ∧
      Follows (Equiv.swap a b * σ * (Equiv.swap a b)⁻¹) links' ∧ links'.struct_ = links.struct_ := by
  rw [conj_swap]
  unfold Links.swapLink
  rw [follows.next_apply, follows.next_apply, follows.prior_apply, follows.prior_apply]
  by_cases adjacent : σ a = b
  · have back : σ.symm b = a := (Equiv.symm_apply_eq σ).mpr adjacent.symm
    obtain ⟨links', inserted, onward, objects⟩ := follows.reinsert ndebug
      (Ne.symm differ) object
    rw [if_pos (congrArg some adjacent), back, Equiv.swap_comm a b]
    exact ⟨links', inserted, onward, objects⟩
  · rw [if_neg fun equal => adjacent (Option.some.inj equal)]
    by_cases adjacent' : σ b = a
    · have back : σ.symm a = b := (Equiv.symm_apply_eq σ).mpr adjacent'.symm
      obtain ⟨links', inserted, onward, objects⟩ := follows.reinsert ndebug differ object'
      rw [if_pos (congrArg some adjacent'), back, Equiv.swap_comm b]
      exact ⟨links', inserted, onward, objects⟩
    · rw [if_neg fun equal => adjacent' (Option.some.inj equal)]
      have pa : σ.symm a ≠ a := symm_apply_ne first
      have qb : σ.symm b ≠ b := symm_apply_ne second
      have pb : σ.symm a ≠ b := symm_apply_ne adjacent'
      have qa : σ.symm b ≠ a := symm_apply_ne adjacent
      have pq : σ.symm a ≠ σ.symm b := fun equal => differ (σ.symm.injective equal)
      obtain ⟨middle, inserted, onward, objects⟩ := follows.reinsert ndebug qa object
      -- the first entry is now in front of the second one
      have front : (σ * Equiv.swap (σ.symm a) a * Equiv.swap (σ.symm b) a).symm b = a := by
        rw [Equiv.symm_apply_eq, Rings.mul_swap_apply_right,
          Rings.mul_swap_apply_of_ne σ (Ne.symm pq) qa, Equiv.apply_symm_apply]
      obtain ⟨links', inserted', onward', objects'⟩ := onward.reinsert ndebug pb
        (objects ▸ object')
      rw [front, mul_assoc, mul_assoc, mul_assoc, ← mul_assoc (Equiv.swap (σ.symm a) a),
        ← mul_assoc (Equiv.swap (σ.symm a) a * _), swap_chain pq pa pb qa qb differ,
        ← mul_assoc] at onward'
      refine ⟨links', ?_, onward', objects'.trans objects⟩
      dsimp only
      rw [inserted]
      exact inserted'

/-- The permutation after a list has got another head, in the order of its links. -/
theorem move_functions (differ : source ≠ target) (filled : σ source ≠ source)
    (empty : σ target = target) :
    (update (update (update (fun entry => some (σ entry)) target
        (some (σ source))) (σ.symm source) (some target)) source (some source) =
        fun entry => some ((Equiv.swap source target * σ * (Equiv.swap source target)⁻¹) entry)) ∧
      update (update (update (fun entry => some (σ.symm entry)) (σ source)
        (some target)) target (some (σ.symm source))) source (some source) =
        fun entry => some ((Equiv.swap source target * σ * (Equiv.swap source target)⁻¹).symm entry) := by
  have back := symm_eq_self empty
  constructor
  · funext entry
    change _ = some (Equiv.swap source target (σ (Equiv.swap source target entry)))
    grind
  · funext entry
    change _ = some (Equiv.swap source target (σ.symm (Equiv.swap source target entry)))
    grind

theorem listMove (follows : Follows σ links) (differ : source ≠ target) (filled : σ source ≠ source)
    (empty : σ target = target) :
    ∃ links', links.listMove source target = some links' ∧
      Follows (Equiv.swap source target * σ * (Equiv.swap source target)⁻¹) links' ∧
      links'.struct_ = update links.struct_ source none := by
  obtain ⟨next, prior⟩ := move_functions differ filled empty
  have prior_source : update links.prior (σ source) (some target) source =
      some (σ.symm source) := by
    rw [update_of_ne (Ne.symm filled), follows.prior_apply]
  unfold Links.listMove
  rw [if_neg (by rw [follows.next_apply]; exact fun equal => filled (Option.some.inj equal))]
  simp only [Option.bind_eq_bind, Links.next_setNext, update_self, follows.next_apply source,
    Option.bind_some, Links.prior_setPrior, Links.prior_setNext, prior_source, Option.pure_def]
  refine ⟨_, rfl, ⟨?_, ?_⟩, rfl⟩
  · rw [← next, ← follows.next]
    rfl
  · rw [← prior, ← follows.prior]
    rfl

end Follows

/-! ## The lists -/

/-- Entries that are not renamed. -/
theorem map_swap_of_not_mem {a b : ι} {xs : List ι} (first : a ∉ xs) (second : b ∉ xs) :
    xs.map (Equiv.swap a b) = xs := by
  have same : ∀ x ∈ xs, Equiv.swap a b x = x := fun x mem =>
    Equiv.swap_apply_of_ne_of_ne (ne_of_mem_of_not_mem mem first) (ne_of_mem_of_not_mem mem second)
  exact (map_congr_left same).trans (map_id xs)

theorem contents_move (lists : Lists ι ο) (source target k : ι) :
    (lists.call (.move source target)).contents k =
      if k = source then [] else if k = target then lists.contents source else lists.contents k := by
  change update (update lists.contents target (lists.contents source)) source [] k = _
  rw [update_apply, update_apply]

/-- A list that is not mentioned stays as it is. -/
theorem Lists.call_of_not_mentions (lists : Lists ι ο) {h : ι} {call : LinkCall ι ο}
    (unmentioned : ¬ lists.Mentions h call) : (lists.call call).contents h = lists.contents h := by
  cases call with
  | insert old new pobj position =>
    cases position with
    | before =>
      apply insertIdx_of_length_lt
      rw [idxOf_eq_length, length_append]
      · exact Nat.lt_succ_self _
      · rw [mem_append, mem_singleton, or_comm, ← mem_cons]
        exact unmentioned
    | after =>
      apply insertIdx_of_length_lt
      rw [idxOf_eq_length unmentioned]
      exact Nat.lt_succ_self _
  | append head new pobj => exact update_of_ne unmentioned _ _
  | delete old => exact erase_of_not_mem unmentioned
  | swap pone ptwo =>
    rcases not_or.mp unmentioned with ⟨first, second⟩
    exact map_swap_of_not_mem first second
  | move source target =>
    rcases not_or.mp unmentioned with ⟨first, second⟩
    rw [contents_move, if_neg first, if_neg second]

namespace Represents

variable {heads : ι → Prop} {σ : Equiv.Perm ι} {lists : Lists ι ο} {links : Links ι ο}
  {ndebug : Bool} {old new : ι} {pobj : Option (Object ι ο)}

omit [DecidableEq ι] in
theorem follows (rep : Represents heads σ lists links) : Follows σ links :=
  ⟨rep.next, rep.prior⟩

omit [DecidableEq ι] in
theorem still (rep : Represents heads σ lists links) (fresh : ¬ Placed heads lists.contents new) :
    σ new = new :=
  rep.rings.alone new fun h here mem => fresh ⟨h, here, mem⟩

omit [DecidableEq ι] in
theorem ne_of_placed (placed : Placed heads lists.contents old)
    (fresh : ¬ Placed heads lists.contents new) : old ≠ new := by
  rintro rfl
  exact fresh placed

section

variable (rep : Represents heads σ lists links)
include rep

/-- A state with one more entry in one list. -/
theorem inserted {h : ι} (here : heads h) {before after : List ι}
    (split : lists.contents h = before ++ after) (fresh : ¬ Placed heads lists.contents new)
    {lists' : Lists ι ο} {links' : Links ι ο}
    (follows' : Follows (σ * Equiv.swap (before.getLastD h) new) links')
    (structs : links'.struct_ = update links.struct_ new (some (pobj.getD (.inr new))))
    (structs' : lists'.struct_ = lists.withObject new pobj)
    (here' : lists'.contents h = before ++ new :: after)
    (others : ∀ k, heads k → k ≠ h → lists'.contents k = lists.contents k) :
    Represents heads (σ * Equiv.swap (before.getLastD h) new) lists' links' where
  next := follows'.next
  prior := follows'.prior
  struct_ := by rw [structs, structs', Lists.withObject, rep.struct_]
  rings := rep.rings.insert here split fresh here' others
  objects := by
    rintro entry ⟨k, there, mem⟩
    rw [structs', Lists.withObject]
    by_cases same : entry = new
    · subst same
      rw [update_self]
      exact Option.some_ne_none _
    · rw [update_of_ne same]
      apply rep.objects
      by_cases equal : k = h
      · subst equal
        rw [here'] at mem
        refine ⟨k, there, ?_⟩
        rw [split]
        exact (mem_cons.mp (perm_middle.mem_iff.mp mem)).resolve_left same
      · rw [others k there equal] at mem
        exact ⟨k, there, mem⟩

theorem call_insert (position : Position) (placed : Placed heads lists.contents old)
    (fresh : ¬ Placed heads lists.contents new) (object : ndebug = false → pobj ≠ none) :
    ∃ links' σ', links.call ndebug (.insert old new pobj position) = some links' ∧
      Represents heads σ' (lists.call (.insert old new pobj position)) links' := by
  have apart := ne_of_placed placed fresh
  obtain ⟨h, here, mem⟩ := placed
  have others : ∀ k, heads k → k ≠ h →
      (lists.call (.insert old new pobj position)).contents k = lists.contents k := by
    intro k there differ
    apply lists.call_of_not_mentions
    exact fun inside => differ (rep.rings.unique there here inside mem)
  cases position with
  | after =>
    obtain ⟨links', done, follows', structs⟩ :=
      rep.follows.insertLink_after (rep.still fresh) apart object
    obtain ⟨before, after, split, last, index⟩ := exists_behind mem
    refine ⟨links', _, done, rep.inserted here split fresh (last ▸ follows') structs rfl ?_ others⟩
    change (lists.contents h).insertIdx ((h :: lists.contents h).idxOf old) new = _
    rw [index, split, insertIdx_length]
  | before =>
    obtain ⟨links', done, follows', structs⟩ :=
      rep.follows.insertLink_before (rep.still fresh) apart object
    obtain ⟨before, after, split, head, index⟩ := exists_before mem
    rw [← head, rep.rings.symm_apply_headD here split] at follows'
    refine ⟨links', _, done, rep.inserted here split fresh follows' structs rfl ?_ others⟩
    change (lists.contents h).insertIdx ((lists.contents h ++ [h]).idxOf old) new = _
    rw [index, split, insertIdx_length]

theorem call_append {head : ι} (here : heads head) (fresh : ¬ Placed heads lists.contents new) :
    ∃ σ', Represents heads σ' (lists.call (.append head new pobj)) (links.appendLink head new pobj) := by
  have placed : Placed heads lists.contents head := ⟨head, here, mem_cons_self⟩
  obtain ⟨follows', structs⟩ := rep.follows.appendLink (rep.still fresh)
    (ne_of_placed placed fresh) pobj
  have split : lists.contents head = lists.contents head ++ [] := (append_nil _).symm
  have last := rep.rings.symm_apply_headD here split
  rw [headD_nil] at last
  rw [last] at follows'
  refine ⟨_, rep.inserted here split fresh follows' structs rfl ?_ ?_⟩
  · exact update_self ..
  · intro k _ differ
    exact update_of_ne differ _ _

theorem call_delete (entry : ¬ heads old) :
    ∃ σ', Represents heads σ' (lists.call (.delete old)) (links.deleteLink old) := by
  obtain ⟨follows', structs⟩ := rep.follows.deleteLink old
  refine ⟨_, follows'.next, follows'.prior, structs.trans rep.struct_, ?_, ?_⟩
  · by_cases placed : Placed heads lists.contents old
    · obtain ⟨h, here, mem⟩ := placed
      have inside : old ∈ lists.contents h := by
        rcases mem_cons.mp mem with rfl | inside
        · exact absurd here entry
        · exact inside
      obtain ⟨before, after, split⟩ := append_of_mem inside
      have nodup := rep.rings.nodup h here
      rw [split] at nodup
      have once : old ∉ before := by
        intro early
        exact (nodup_append.mp (nodup_cons.mp nodup).2).2.2 old early old
          mem_cons_self rfl
      have last := rep.rings.symm_apply_headD here split
      rw [headD_cons] at last
      rw [last]
      apply rep.rings.remove here split
      · change (lists.contents h).erase old = _
        rw [split, erase_append_right _ once, erase_cons_head]
      · intro k there differ
        apply erase_of_not_mem
        exact fun other => differ (rep.rings.unique there here (mem_cons_of_mem _ other) mem)
    · have still := rep.still placed
      rw [Follows.symm_eq_self still, Equiv.swap_self]
      refine Rings.congr (σ := σ) rep.rings fun k there => ?_
      apply erase_of_not_mem
      exact fun inside => placed ⟨k, there, mem_cons_of_mem _ inside⟩
  · rintro other ⟨h, here, mem⟩
    exact rep.objects other ⟨h, here, mem_of_mem_erase mem⟩

end

variable {source target : ι}

omit [DecidableEq ι] in
theorem linked_not_head (rep : Represents heads σ lists links) {entry : ι}
    (linked : lists.Linked heads entry) : ¬ heads entry := by
  rcases linked with ⟨h, here, mem⟩
  exact fun head => rep.rings.head_not_mem here head mem

/-- Two heads, or two other entries, are renamed to each other. -/
theorem heads_swap {a b : ι} (alike : heads a ↔ heads b) :
    (fun h => heads ((Equiv.swap a b).symm h)) = heads := by
  funext h
  rw [Equiv.symm_swap, Equiv.swap_apply_def]
  split
  · next equal => rw [equal, alike]
  · split
    · next equal => rw [equal, alike]
    · rfl

theorem call_swap (rep : Represents heads σ lists links) {pone ptwo : ι} (differ : pone ≠ ptwo)
    (first : lists.Linked heads pone) (second : lists.Linked heads ptwo) :
    ∃ links' σ', links.call ndebug (.swap pone ptwo) = some links' ∧
      Represents heads σ' (lists.call (.swap pone ptwo)) links' := by
  have notHead := rep.linked_not_head first
  have notHead' := rep.linked_not_head second
  have object : links.struct_ pone ≠ none := rep.struct_ ▸ rep.objects pone first
  have object' : links.struct_ ptwo ≠ none := rep.struct_ ▸ rep.objects ptwo second
  have moves : ∀ entry, lists.Linked heads entry → σ entry ≠ entry := by
    rintro entry ⟨h, here, mem⟩
    exact rep.rings.apply_ne here mem
  obtain ⟨links', done, follows', structs⟩ := rep.follows.swapLink differ (moves pone first)
    (moves ptwo second) object object' ndebug
  have fixed : ∀ h, heads h → (Equiv.swap pone ptwo).symm h = h := by
    intro h here
    apply Equiv.swap_apply_of_ne_of_ne
    · rintro rfl
      exact notHead here
    · rintro rfl
      exact notHead' here
  refine ⟨links', _, done, follows'.next, follows'.prior, structs.trans rep.struct_, ?_, ?_⟩
  · have renamed := rep.rings.conj (Equiv.swap pone ptwo)
    rw [heads_swap (iff_of_false notHead notHead')] at renamed
    apply renamed.congr
    intro h here
    rw [fixed h here]
    rfl
  · rintro entry ⟨h, here, mem⟩
    apply rep.objects
    obtain ⟨x, inside, rfl⟩ := mem_map.mp mem
    rw [Equiv.swap_apply_def]
    split
    · exact second
    · split
      · exact first
      · exact ⟨h, here, inside⟩

omit [DecidableEq ι] in
/-- The head of an empty list leads to itself, and no other does. -/
theorem head_iff (rep : Represents heads σ lists links) {h : ι} (here : heads h) :
    σ h = h ↔ lists.contents h = [] := by
  have path := rep.rings.path h here
  have nodup := rep.rings.nodup h here
  cases filled : lists.contents h with
  | nil =>
    rw [filled] at path
    exact iff_of_true path rfl
  | cons x xs =>
    rw [filled] at path nodup
    refine iff_of_false ?_ (cons_ne_nil x xs)
    rw [path.1]
    rintro rfl
    exact (nodup_cons.mp nodup).1 mem_cons_self

theorem struct_move (lists : Lists ι ο) (source target : ι) :
    (lists.call (.move source target)).struct_ =
      if lists.contents source = [] then lists.struct_ else update lists.struct_ source none :=
  rfl

section

variable (rep : Represents heads σ lists links) (here : heads source) (there : heads target)
  (empty : lists.contents target = [])
include rep here there empty

theorem call_move_nil (nothing : lists.contents source = []) :
    ∃ links', links.call ndebug (.move source target) = some links' ∧
      Represents heads σ (lists.call (.move source target)) links' := by
  have alone := (rep.head_iff there).mpr empty
  have still := (rep.head_iff here).mpr nothing
  have next : links.next source = some source := by rw [rep.follows.next_apply, still]
  have same : ∀ k, (lists.call (.move source target)).contents k = lists.contents k := by
    intro k
    rw [contents_move]
    split
    · next equal => rw [equal, nothing]
    · split
      · next equal => rw [equal, nothing, empty]
      · rfl
  refine ⟨(links.setNext target (some target)).setPrior target (some target), if_pos next, ?_⟩
  constructor
  · rw [Links.next_setPrior, Links.next_setNext, ← rep.next, update_eq_self_iff,
      rep.follows.next_apply, alone]
  · rw [Links.prior_setPrior, Links.prior_setNext, ← rep.prior, update_eq_self_iff,
      rep.follows.prior_apply, Follows.symm_eq_self alone]
  · rw [struct_move, if_pos nothing]
    exact rep.struct_
  · exact rep.rings.congr fun k _ => same k
  · rintro entry ⟨k, head, mem⟩
    rw [same] at mem
    rw [struct_move, if_pos nothing]
    exact rep.objects entry ⟨k, head, mem⟩

theorem call_move (filled : lists.contents source ≠ []) :
    ∃ links' σ', links.call ndebug (.move source target) = some links' ∧
      Represents heads σ' (lists.call (.move source target)) links' := by
  have alone := (rep.head_iff there).mpr empty
  have moves : σ source ≠ source := fun still => filled ((rep.head_iff here).mp still)
  have differ : source ≠ target := by
    rintro rfl
    exact filled empty
  obtain ⟨links', done, follows', structs⟩ := rep.follows.listMove differ moves alone
  refine ⟨links', _, done, follows'.next, follows'.prior, ?_, ?_, ?_⟩
  · rw [struct_move, if_neg filled, structs, rep.struct_]
  · -- the two heads are renamed to each other
    have renamed := rep.rings.conj (Equiv.swap source target)
    rw [heads_swap (iff_of_true here there)] at renamed
    apply renamed.congr
    intro k head
    have kept : ∀ h, heads h → (lists.contents h).map (Equiv.swap source target) =
        lists.contents h := fun h head =>
      map_swap_of_not_mem (rep.rings.head_not_mem head here) (rep.rings.head_not_mem head there)
    rw [contents_move, Equiv.symm_swap]
    split
    · next equal => rw [equal, Equiv.swap_apply_left, empty, map_nil]
    · next one =>
      split
      · next equal => rw [equal, Equiv.swap_apply_right, kept source here]
      · next two => rw [Equiv.swap_apply_of_ne_of_ne one two, kept k head]
  · rintro entry ⟨k, head, mem⟩
    have linked : lists.Linked heads entry := by
      rw [contents_move] at mem
      split at mem
      · contradiction
      · split at mem
        · exact ⟨source, here, mem⟩
        · exact ⟨k, head, mem⟩
    rw [struct_move, if_neg filled, update_of_ne]
    · exact rep.objects entry linked
    · rintro rfl
      exact rep.linked_not_head linked here

end

/-- Every call that is allowed does to the lists what it is for. -/
theorem call (rep : Represents heads σ lists links) {call : LinkCall ι ο}
    (allowed : lists.Allowed ndebug heads call) :
    ∃ links' σ', links.call ndebug call = some links' ∧
      Represents heads σ' (lists.call call) links' := by
  cases call with
  | insert old new pobj position =>
    rcases allowed with ⟨placed, fresh, object⟩
    exact rep.call_insert position placed fresh object
  | append head new pobj =>
    rcases allowed with ⟨here, fresh⟩
    rcases rep.call_append here fresh with ⟨σ', rep'⟩
    exact ⟨_, σ', rfl, rep'⟩
  | delete old =>
    rcases rep.call_delete allowed with ⟨σ', rep'⟩
    exact ⟨_, σ', rfl, rep'⟩
  | swap pone ptwo =>
    rcases allowed with ⟨differ, first, second⟩
    exact rep.call_swap differ first second
  | move source target =>
    rcases allowed with ⟨here, there, empty⟩
    by_cases nothing : lists.contents source = []
    · rcases rep.call_move_nil here there empty nothing with ⟨links', done, rep'⟩
      exact ⟨links', σ, done, rep'⟩
    · exact rep.call_move here there empty nothing

end Represents

/-- Any sequence of allowed calls leaves well-formed lists with the contents they are to have, and
every list that no call mentions as it was. -/
theorem calls_refine (ndebug : Bool) (heads : ι → Prop) (σ : Equiv.Perm ι) (lists : Lists ι ο)
    (links : Links ι ο) (rep : Represents heads σ lists links) (calls : List (LinkCall ι ο))
    (allowed : Admissible Lists.call (Lists.Allowed ndebug heads) lists calls) :
    (∃ links' σ', links.calls ndebug calls = some links' ∧
      Represents heads σ' (run Lists.call lists calls) links') ∧
      ∀ h, Admissible Lists.call (fun lists call => ¬ lists.Mentions h call) lists calls →
        (run Lists.call lists calls).contents h = lists.contents h := by
  constructor
  · induction calls generalizing σ lists links with
    | nil => exact ⟨links, σ, rfl, rep⟩
    | cons call calls ih =>
      rcases rep.call allowed.1 with ⟨next, τ, done, onward⟩
      rcases ih τ (lists.call call) next onward allowed.2 with ⟨links', σ', rest, reached⟩
      refine ⟨links', σ', ?_, reached⟩
      rw [Links.calls, foldlM_cons, done]
      exact rest
  · intro h unmentioned
    exact invariant (fun reached => reached.contents h = lists.contents h) rfl
      (fun state call same other => (state.call_of_not_mentions other).trans same) unmentioned

/-! ### Lists that have just been cleared -/

/-- `CLEAR_HEAD` or `CLEAR_LINK` on every entry. -/
def Links.cleared : Links ι ο where
  next entry := some entry
  prior entry := some entry
  struct_ _ := none

/-- Lists without entries. -/
def Lists.empty : Lists ι ο where
  contents _ := []
  struct_ _ := none

omit [DecidableEq ι] in
theorem represents_cleared (heads : ι → Prop) :
    Represents heads 1 Lists.empty (Links.cleared : Links ι ο) where
  next := rfl
  prior := rfl
  struct_ := rfl
  rings :=
    { path := fun _ _ => rfl
      nodup := fun h _ => nodup_singleton h
      apart := by
        intro h k _ _ differ x mem mem'
        rw [Lists.empty, mem_singleton] at mem mem'
        exact differ (mem.symm.trans mem')
      alone := fun _ _ => rfl }
  objects := by
    rintro entry ⟨h, _, mem⟩
    cases mem

section

variable [Fintype ι] {heads : ι → Prop} [DecidablePred heads]

instance (contents : ι → List ι) : DecidablePred (Placed heads contents) :=
  fun x => inferInstanceAs (Decidable (∃ h, heads h ∧ x ∈ h :: contents h))

instance (lists : Lists ι ο) : DecidablePred (lists.Linked heads) :=
  fun x => inferInstanceAs (Decidable (∃ h, heads h ∧ x ∈ lists.contents h))

instance [DecidableEq ο] (ndebug : Bool) (lists : Lists ι ο) :
    DecidablePred (lists.Allowed ndebug heads)
  | .insert .. => inferInstanceAs (Decidable (_ ∧ _ ∧ (_ → _)))
  | .append .. => inferInstanceAs (Decidable (_ ∧ _))
  | .delete _ => inferInstanceAs (Decidable (¬ _))
  | .swap .. => inferInstanceAs (Decidable (_ ∧ _ ∧ _))
  | .move .. => inferInstanceAs (Decidable (_ ∧ _ ∧ _))

end

/-- Three heads and three entries, which are put into two lists, swapped within a list and between
lists, taken out and moved. -/
def sixLinks : List (LinkCall (Fin 6) Unit) :=
  [.insert 0 3 (some (.inl ())) .after, .append 0 4 (some (.inl ())),
    .insert 1 5 (some (.inl ())) .before, .swap 3 4, .swap 3 5, .delete 4, .move 1 2]

example : (run Lists.call Lists.empty sixLinks).contents 0 = [5] ∧
    (run Lists.call Lists.empty sixLinks).contents 2 = [3] := by
  decide +kernel

theorem calls_refine_six :
    Admissible Lists.call (Lists.Allowed false fun h : Fin 6 => h < 3) Lists.empty sixLinks ∧
      ∃ links' σ', Links.cleared.calls false sixLinks = some links' ∧
        Represents (fun h : Fin 6 => h < 3) σ' (run Lists.call Lists.empty sixLinks) links' := by
  have allowed : Admissible Lists.call (Lists.Allowed false fun h : Fin 6 => h < 3) Lists.empty
      sixLinks := by
    decide +kernel
  exact ⟨allowed, (calls_refine false _ 1 Lists.empty Links.cleared (represents_cleared _) sixLinks
    allowed).1⟩

end Torque.Container
