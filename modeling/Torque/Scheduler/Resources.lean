import Torque.Scheduler.Cycle

/-!
# The resources that are checked

`check_avail_resources` compares what a job asks for with what is left of a resource, and
`update_server_on_run` and `update_queue_on_run` add it to what is assigned.  What is left is a
`long`, but the check keeps it in an `int`, and takes one value of it for infinity.
-/

namespace Torque.Scheduler

open List

variable {reslist : List Resource} {resreq : List ResourceReq}

/-- The test of `check_avail_resources`. -/
def enough (avail amount : Int) : Bool :=
  decide (avail = infinityVal ∨ amount ≤ avail)

/-- A resource that is checked for a job: the list has it, and the job asks for it. -/
structure Checked (reslist : List Resource) (resreq : List ResourceReq) (res : Resource)
    (req : ResourceReq) (name : ResourceName) : Prop where
  checked : name ∈ resToCheck
  has : findResource reslist name = some res
  asks : findResourceReq resreq name = some req

/-- Of some resource that is checked there is really not enough. -/
def Insufficient (reslist : List Resource) (resreq : List ResourceReq) : Prop :=
  ∃ name res req, Checked reslist resreq res req name ∧ enough (dynamicAvail res) req.amount = false

/-- The `int` makes no difference to any of the tests. -/
def Unharmed (reslist : List Resource) (resreq : List ResourceReq) : Prop :=
  ∀ name res req, Checked reslist resreq res req name →
    enough (narrow (dynamicAvail res)) req.amount = enough (dynamicAvail res) req.amount

theorem unharmed_iff :
    (∀ name ∈ resToCheck, ∀ res ∈ findResource reslist name, ∀ req ∈ findResourceReq resreq name,
      enough (narrow (dynamicAvail res)) req.amount = enough (dynamicAvail res) req.amount) ↔
      Unharmed reslist resreq := by
  constructor
  · rintro unharmed name res req ⟨checked, has, asks⟩
    exact unharmed name checked res has req asks
  · intro unharmed name checked res has req asks
    exact unharmed name res req ⟨checked, has, asks⟩

instance (reslist : List Resource) (resreq : List ResourceReq) :
    Decidable (Unharmed reslist resreq) :=
  decidable_of_iff _ unharmed_iff

theorem insufficient_iff :
    (∃ name ∈ resToCheck, ∃ res ∈ findResource reslist name,
      ∃ req ∈ findResourceReq resreq name, enough (dynamicAvail res) req.amount = false) ↔
      Insufficient reslist resreq := by
  constructor
  · rintro ⟨name, checked, res, has, req, asks, short⟩
    exact ⟨name, res, req, ⟨checked, has, asks⟩, short⟩
  · rintro ⟨name, res, req, ⟨checked, has, asks⟩, short⟩
    exact ⟨name, checked, res, has, req, asks, short⟩

instance (reslist : List Resource) (resreq : List ResourceReq) :
    Decidable (Insufficient reslist resreq) :=
  decidable_of_iff _ insufficient_iff

/-! ## The check -/

theorem refuses_iff {avail amount : Int} :
    (avail ≠ infinityVal ∧ avail < amount) ↔ enough avail amount = false := by
  simp [enough]

/-- The job passes if each of the tests is passed. -/
theorem checkAvailResources_eq_none :
    checkAvailResources reslist resreq = none ↔
      ∀ name res req, Checked reslist resreq res req name →
        enough (narrow (dynamicAvail res)) req.amount = true := by
  unfold checkAvailResources
  rw [findSome?_eq_none_iff]
  constructor
  · rintro passes name res req ⟨checked, has, asks⟩
    rcases getElem?_of_mem checked with ⟨index, at_⟩
    have test := passes (name, index) (mk_mem_zipIdx_iff_getElem?.2 at_)
    simp only [has, asks] at test
    by_contra refused
    rw [if_pos (refuses_iff.2 (Bool.eq_false_iff.2 refused))] at test
    cases test
  · rintro passes ⟨name, index⟩ mem
    have checked : name ∈ resToCheck :=
      mem_of_getElem? (mk_mem_zipIdx_iff_getElem?.1 mem)
    dsimp only
    split
    · next res req has asks =>
      refine if_neg fun refused => ?_
      have test := passes name res req ⟨checked, has, asks⟩
      rw [refuses_iff.1 refused] at test
      cases test
    · rfl

/-- Where the `int` makes no difference, a job is refused only if there is not enough. -/
theorem insufficient_of_refused (unharmed : Unharmed reslist resreq)
    (refused : checkAvailResources reslist resreq ≠ none) : Insufficient reslist resreq := by
  by_contra sufficient
  refine refused (checkAvailResources_eq_none.2 fun name res req checked => ?_)
  rw [unharmed name res req checked]
  by_contra short
  exact sufficient ⟨name, res, req, checked, Bool.eq_false_iff.2 short⟩

/-- A job is refused only if there is not enough, unless the `int` harms a job for which there is
enough. -/
theorem refused_iff :
    (checkAvailResources reslist resreq ≠ none → Insufficient reslist resreq) ↔
      (¬ Insufficient reslist resreq → Unharmed reslist resreq) := by
  constructor
  · intro exact_ sufficient name res req checked
    have passes : checkAvailResources reslist resreq = none := by
      by_contra refused
      exact sufficient (exact_ refused)
    rw [checkAvailResources_eq_none.1 passes name res req checked]
    by_contra short
    exact sufficient ⟨name, res, req, checked, Bool.eq_false_iff.2 fun fits => short fits.symm⟩
  · intro unharmed refused
    by_contra sufficient
    exact sufficient (insufficient_of_refused (unharmed sufficient) refused)

/-! ## What is assigned -/

/-- What a job asks for of a resource. -/
def requested (resreq : List ResourceReq) (name : ResourceName) : Int :=
  ((findResourceReq resreq name).map (·.amount)).getD 0

theorem assignResource_cons (first : Resource) (res : List Resource) (req : ResourceReq) :
    assignResource (first :: res) req =
      if first.name = req.name then { first with assigned := first.assigned + req.amount } :: res
      else first :: assignResource res req := by
  unfold assignResource
  rw [findIdx?_cons]
  by_cases same : first.name = req.name
  · rw [if_pos same, if_pos (decide_eq_true same)]
    rfl
  · rw [if_neg same, if_neg (by simpa using same)]
    cases res.findIdx? (·.name = req.name) with
    | none => rfl
    | some index => rfl

/-- Only the resource that is asked for changes. -/
theorem findResource_assignResource (res : List Resource) (req : ResourceReq)
    (name : ResourceName) :
    findResource (assignResource res req) name = (findResource res name).map fun r =>
      { r with assigned := r.assigned + if req.name = name then req.amount else 0 } := by
  induction res with
  | nil => rfl
  | cons first res ih =>
    rw [assignResource_cons]
    unfold findResource at ih ⊢
    by_cases here : first.name = name
    · by_cases same : first.name = req.name
      · rw [if_pos same, find?_cons_of_pos (by simpa using here),
          find?_cons_of_pos (by simpa using here), Option.map_some, if_pos (same.symm.trans here)]
      · rw [if_neg same, find?_cons_of_pos (by simpa using here),
          find?_cons_of_pos (by simpa using here), Option.map_some,
          if_neg fun equal => same (here.trans equal.symm), Int.add_zero]
    · by_cases same : first.name = req.name
      · rw [if_pos same, find?_cons_of_neg (by simpa using here),
          find?_cons_of_neg (by simpa using here)]
        have other : req.name ≠ name := fun equal => here (same.trans equal)
        simp [other]
      · rw [if_neg same, find?_cons_of_neg (by simpa using here),
          find?_cons_of_neg (by simpa using here)]
        exact ih

theorem findResource_assignResources (distinct : (resreq.map (·.name)).Nodup) (res : List Resource)
    (name : ResourceName) :
    findResource (assignResources resreq res) name = (findResource res name).map fun r =>
      { r with assigned := r.assigned + requested resreq name } := by
  unfold assignResources
  induction resreq generalizing res with
  | nil => simp [requested, findResourceReq]
  | cons req resreq ih =>
    rw [map_cons, nodup_cons] at distinct
    rw [foldl_cons, ih distinct.2, findResource_assignResource, Option.map_map]
    congr 1
    funext r
    have sum : (if req.name = name then req.amount else 0) + requested resreq name =
        requested (req :: resreq) name := by
      unfold requested findResourceReq
      by_cases same : req.name = name
      · subst same
        have absent : resreq.find? (fun other => decide (other.name = req.name)) = none := by
          rw [find?_eq_none]
          intro other mem equal
          exact distinct.1 (of_decide_eq_true equal ▸ mem_map_of_mem mem)
        rw [if_pos rfl, absent, find?_cons_of_pos (by simp)]
        exact Int.add_zero _
      · rw [if_neg same, find?_cons_of_neg (by simpa using same), Int.zero_add]
    simp only [Function.comp_apply, Int.add_assoc, sum]

/-! ## What is left -/

/-- No more is assigned of a resource that is checked than is available. -/
def Stocked (reslist : List Resource) : Prop :=
  ∀ name ∈ resToCheck, ∀ res, findResource reslist name = some res → res.avail ≠ unspecified →
    res.assigned ≤ res.avail

/-- A job that passes the check can be given what it asks for. -/
theorem Stocked.assignResources (stocked : Stocked reslist) (distinct : (resreq.map (·.name)).Nodup)
    (unharmed : Unharmed reslist resreq) (passes : checkAvailResources reslist resreq = none) :
    Stocked (assignResources resreq reslist) := by
  intro name checked res has available
  rw [findResource_assignResources distinct] at has
  rcases Option.map_eq_some_iff.1 has with ⟨before, had, rfl⟩
  have within := stocked name checked before had available
  unfold requested
  cases asks : findResourceReq resreq name with
  | none => simpa using within
  | some req =>
    have tested := checkAvailResources_eq_none.1 passes name before req ⟨checked, had, asks⟩
    rw [unharmed name before req ⟨checked, had, asks⟩] at tested
    have left : dynamicAvail before = before.avail - before.assigned := by
      unfold dynamicAvail
      rw [if_neg (fun both => available both.2), if_neg available]
    rw [left, enough, decide_eq_true_iff] at tested
    rcases tested with infinite | fits
    · rw [infinityVal] at infinite
      omega
    · dsimp only [Option.map_some, Option.getD_some]
      omega

end Torque.Scheduler
