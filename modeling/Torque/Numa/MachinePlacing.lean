import Torque.Numa.SocketPlacing

/-!
# Placing a job adds records

What is known of the sockets is carried through the loops over the sockets of
the machine and the requests of the job.  `Places` is the result for a call of
`place_job`, be it successful or not.
-/

namespace Torque.Numa

open Torque.Transition List Traced

variable {F : Type} [Floating F] {restored : Prop}

/-- The chips of several sockets. -/
def chipsOf (sockets : List Socket) : List Chip :=
  sockets.flatMap Socket.chips

namespace Machine

/-- The allocation of the job has been filled from the sockets. -/
def Site.Grows (restored : Prop) (site site' : Site) : Prop :=
  Numa.Grows restored site.alloc.jobid (chipsOf site.sockets) (chipsOf site'.sockets) site.alloc
    site'.alloc

namespace Site.Grows

variable {site site' site'' : Site}

theorem refl (site : Site) : Grows restored site site :=
  Numa.Grows.refl _ _

theorem trans (first : Grows restored site site') (second : Grows restored site' site'') :
    Grows restored site site'' := by
  unfold Site.Grows at second
  rw [Numa.Grows.jobid first] at second
  exact Numa.Grows.trans first second

/-- First a socket, then the sockets behind it. -/
theorem cons {socket socket' : Socket} {sockets : List Socket} {a a' : Allocation}
    (first : Numa.Grows restored a.jobid socket.chips socket'.chips a a')
    (second : Grows restored ⟨sockets, a'⟩ site) :
    Grows restored ⟨socket :: sockets, a⟩ ⟨socket' :: site.sockets, site.alloc⟩ := by
  exact first.append (first.jobid ▸ second)

end Site.Grows

variable {remaining taskAlloc : Allocation}

/-! ## All execution slots -/

section

variable (r : Req) (sockets : List Socket)

theorem placeAllOnSockets_grows (taskAlloc : Allocation) :
    Under (Look.Fair restored) (placeAllOnSockets r sockets taskAlloc)
      (Site.Grows restored ⟨sockets, taskAlloc⟩) := by
  induction sockets generalizing taskAlloc with
  | nil => exact Under.pure (Site.Grows.refl _)
  | cons socket sockets ih =>
    refine Under.bind (socket.placeAllExecutionSlots_grows r taskAlloc)
      fun done first => ?_
    refine Under.bind (ih done.2) fun rest second => Under.pure ?_
    exact Site.Grows.cons first second

theorem placeAllExecutionSlots_grows (site : Site) (r : Req) :
    Under (Look.Fair restored) (placeAllExecutionSlots site r)
      (Site.Grows restored site) := by
  refine Under.bind (placeAllOnSockets_grows r site.sockets _) fun done grows =>
    Under.pure ?_
  exact Numa.Grows.add grows rfl site.alloc

/-! ## Spreading -/

theorem spreadOnSocket_grows (restored : Prop) (slotsPer : Int) (chips : Bool)
    (sockets : List Socket) (taskAlloc : Allocation) (slotsRemainder : Int) :
    Numa.Grows restored taskAlloc.jobid (chipsOf sockets)
      (chipsOf (spreadOnSocket F slotsPer chips sockets taskAlloc slotsRemainder).sockets) taskAlloc
      (spreadOnSocket F slotsPer chips sockets taskAlloc slotsRemainder).taskAlloc := by
  induction sockets generalizing taskAlloc slotsRemainder with
  | nil => exact Numa.Grows.refl _ _
  | cons socket sockets ih =>
    have first := socket.spreadPlace_grows (F := F) restored taskAlloc slotsPer slotsRemainder
      chips
    unfold spreadOnSocket
    dsimp only
    split
    · exact first.append (Numa.Grows.refl _ _)
    · exact first.append (first.jobid ▸ ih _ _)

theorem spreadQuantity_grows (restored : Prop) (slotsPer : Int) (chips : Bool) (quantity : Nat)
    (s : Spreading) :
    Numa.Grows restored s.taskAlloc.jobid (chipsOf s.sockets)
      (chipsOf (spreadQuantity F slotsPer chips quantity s).sockets) s.taskAlloc
      (spreadQuantity F slotsPer chips quantity s).taskAlloc := by
  induction quantity generalizing s with
  | zero => exact Numa.Grows.refl _ _
  | succ quantity ih =>
    have first := spreadOnSocket_grows (F := F) restored slotsPer chips s.sockets s.taskAlloc
      s.slotsRemainder
    unfold spreadQuantity
    generalize spreadOnSocket F slotsPer chips s.sockets s.taskAlloc s.slotsRemainder = next
      at first ⊢
    have rest := ih { next with placed := true }
    dsimp only at rest ⊢
    rw [first.jobid] at rest
    split
    · exact first.trans rest
    · exact first

theorem spreadTasks_grows (restored : Prop) (r : Req) (slotsPer : Int) (chips : Bool)
    (quantity tasks : Nat) (site : Site) (slotsRemainder : Int) :
    Site.Grows restored site
      (spreadTasks F r slotsPer chips quantity tasks site slotsRemainder).1 := by
  induction tasks generalizing site slotsRemainder with
  | zero => exact Site.Grows.refl site
  | succ tasks ih =>
    have task := spreadQuantity_grows (F := F) restored slotsPer chips quantity
      ⟨false, site.sockets, { jobid := site.alloc.jobid, placeType := r.placeType },
        slotsRemainder⟩
    unfold spreadTasks
    generalize spreadQuantity F slotsPer chips quantity
      ⟨false, site.sockets, { jobid := site.alloc.jobid, placeType := r.placeType },
        slotsRemainder⟩ = done at task ⊢
    dsimp only at task ⊢
    split
    · have next : Site.Grows restored site ⟨done.sockets, site.alloc.add done.taskAlloc⟩ :=
        Numa.Grows.add task rfl site.alloc
      exact next.trans (ih _ _)
    · have next : Site.Grows restored site ⟨done.sockets, site.alloc⟩ :=
        Numa.Grows.keep task.extended site.alloc
      exact next.trans (ih _ _)

theorem spreadPlace_grows (restored : Prop) (site : Site) (r : Req) (tasks : Int) :
    Site.Grows restored site (spreadPlace F site r tasks).1 := by
  unfold spreadPlace
  split
  · exact Site.Grows.refl site
  · exact spreadTasks_grows ..

/-! ## Tasks in parts -/

theorem partOnOneSocket_grows (taskAlloc : Allocation) (sockets : List Socket)
    (shared : remaining.placeType.shared) :
    Under (Look.Fair restored) (partOnOneSocket F remaining taskAlloc sockets) fun found =>
      ∀ site, found = some site → Site.Grows restored ⟨sockets, taskAlloc⟩ site := by
  induction sockets with
  | nil =>
    apply Under.pure
    rintro site ⟨⟩
  | cons socket sockets ih =>
    unfold partOnOneSocket
    split
    · refine Under.bind (socket.partiallyPlace_part shared) fun part placed =>
        Under.pure ?_
      rintro site ⟨⟩
      exact Site.Grows.cons placed.grows (Site.Grows.refl _)
    · refine Under.bind ih fun rest grows => Under.pure ?_
      intro site found
      obtain ⟨inner, located, rfl⟩ := Option.map_eq_some_iff.mp found
      exact Site.Grows.cons (Numa.Grows.refl socket.chips taskAlloc) (grows inner located)

variable (tasks : Nat) (site : Site)

theorem placeWithinSockets_grows (shared : r.placeType.shared) :
    Under (Look.Fair restored) (placeWithinSockets F r tasks site) fun left =>
      Site.Grows restored site left.site := by
  induction tasks generalizing site with
  | zero => exact Under.pure (Site.Grows.refl site)
  | succ tasks ih =>
    have part : Under (Look.Fair restored) (partOnOneSocket F (.ofReq r)
        { jobid := site.alloc.jobid, coresOnly := site.alloc.coresOnly } site.sockets) _ :=
      partOnOneSocket_grows _ site.sockets shared
    refine Under.bind part fun found grows => ?_
    cases found with
    | none => exact Under.pure (Site.Grows.refl site)
    | some placed =>
      have next := Numa.Grows.add (grows placed rfl) rfl site.alloc
      exact (ih _).mono fun left more => next.trans more

theorem spanSockets_part (shared : remaining.placeType.shared) :
    Under (Look.Fair restored) (spanSockets F sockets remaining taskAlloc) fun span =>
      Socket.Part restored (chipsOf sockets) remaining taskAlloc (chipsOf span.sockets)
        span.remaining span.taskAlloc span.fit := by
  induction sockets generalizing remaining taskAlloc with
  | nil => exact Under.pure ⟨Numa.Grows.refl _ _, rfl, nofun⟩
  | cons socket sockets ih =>
    refine Under.bind (socket.partiallyPlace_part shared) fun part placed => ?_
    split
    · rename_i full
      apply Under.pure
      exact ⟨placed.grows.append (Numa.Grows.refl _ _), placed.placeType,
        fun _ => placed.done full⟩
    · refine Under.bind (ih (placed.placeType ▸ shared)) fun rest more =>
        Under.pure ?_
      exact ⟨placed.grows.append (placed.grows.jobid ▸ more.grows),
        more.placeType.trans placed.placeType, more.done⟩

theorem placeAcross_grows (site : Site) (shared : r.placeType.shared) :
    Under (Look.Fair restored) (placeAcross F r site) fun done =>
      Site.Grows restored site done.1 := by
  have sharedNeeded : (needed r site.alloc).placeType.shared := by
    unfold needed
    split
    · exact shared
    · exact shared
  refine Under.bind (spanSockets_part site.sockets sharedNeeded) fun first one => ?_
  dsimp only
  split
  · rename_i again
    -- cores are left to place, so that the task is not in the allocation of the job yet
    have unfit : first.fit = false := by
      by_contra fit
      have none := one.done (by simpa using fit)
      omega
    refine Under.bind (spanSockets_part first.sockets nofun)
      fun second two => Under.pure ?_
    have both := one.grows.trans (one.grows.jobid ▸ two.grows)
    rw [unfit]
    cases second.fit with
    | true => exact (Numa.Grows.add both rfl site.alloc).relabel rfl rfl rfl
    | false => exact (Numa.Grows.keep both.extended site.alloc).relabel rfl rfl rfl
  · apply Under.pure
    cases first.fit with
    | true => exact Numa.Grows.add one.grows rfl site.alloc
    | false => exact Numa.Grows.keep one.grows.extended site.alloc

theorem placeAcrossSockets_grows (shared : r.placeType.shared) :
    Under (Look.Fair restored) (placeAcrossSockets F r tasks site) fun left =>
      Site.Grows restored site left.site := by
  induction tasks generalizing site with
  | zero => exact Under.pure (Site.Grows.refl site)
  | succ tasks ih =>
    refine Under.bind (placeAcross_grows r site shared) fun done grows => ?_
    split
    · exact (ih done.1).mono fun left more => grows.trans more
    · exact Under.pure grows

theorem placeRemaining_grows (site : Site) (tasks : Nat) (shared : r.placeType.shared) :
    Under (Look.Fair restored) (placeRemaining F r site tasks) fun left =>
      Site.Grows restored site left.site := by
  refine Under.bind (placeWithinSockets_grows r tasks site shared) fun within first => ?_
  exact (placeAcrossSockets_grows r within.tasks within.site shared).mono
    fun left second => first.trans second

/-! ## Requests -/

theorem fitTasksWithinSockets_grows {jobAlloc : Allocation} (left : Int)
    (shared : jobAlloc.placeType.shared) (sharedReq : r.placeType.shared) :
    Under (Look.Fair restored) (fitTasksWithinSockets F r sockets jobAlloc left) fun done =>
      Site.Grows restored ⟨sockets, jobAlloc⟩ done.1 := by
  induction sockets generalizing jobAlloc left with
  | nil => exact Under.pure (Site.Grows.refl _)
  | cons socket sockets ih =>
    unfold fitTasksWithinSockets
    split
    · refine Under.bind (socket.placeTask_takes r jobAlloc left shared sharedReq)
        fun done takes => ?_
      refine Under.bind (ih _ (takes.placeType ▸ shared)) fun rest more =>
        Under.pure ?_
      exact Site.Grows.cons takes.grows more
    · exact Under.pure (Site.Grows.refl _)

theorem placeOnOneSocket_grows (jobAlloc : Allocation) (tasks : Int) (sockets : List Socket)
    (shared : jobAlloc.placeType.shared) (sharedReq : r.placeType.shared) :
    Under (Look.Fair restored) (placeOnOneSocket F r jobAlloc tasks sockets) fun found =>
      ∀ placed, found = some placed → Site.Grows restored ⟨sockets, jobAlloc⟩ placed.1 := by
  induction sockets with
  | nil =>
    apply Under.pure
    rintro placed ⟨⟩
  | cons socket sockets ih =>
    unfold placeOnOneSocket
    split
    · refine Under.bind (socket.placeTask_takes r jobAlloc tasks shared sharedReq)
        fun done takes => Under.pure ?_
      rintro placed ⟨⟩
      exact Site.Grows.cons takes.grows (Site.Grows.refl _)
    · refine Under.bind ih fun rest grows => Under.pure ?_
      intro placed found
      obtain ⟨inner, located, rfl⟩ := Option.map_eq_some_iff.mp found
      exact Site.Grows.cons (Numa.Grows.refl socket.chips jobAlloc) (grows inner located)

/-- A request that was put off does not ask for chips of its own. -/
theorem tryReq_grows (site : Site) :
    Under (Look.Fair restored) (tryReq F r site) fun tried =>
      Site.Grows restored site tried.site ∧ (tried.putOff = true → r.placeType.shared) := by
  have relabel : ∀ site', Site.Grows restored
      ⟨site.sockets, { site.alloc with placeType := r.placeType }⟩ site' →
        Site.Grows restored site site' := by
    intro site' grows
    exact Numa.Grows.relabel grows rfl rfl grows.jobid
  unfold tryReq
  split
  · exact Under.pure ⟨Site.Grows.refl site, nofun⟩
  · split
    · refine Under.bind (placeAllExecutionSlots_grows _ r) fun done grows =>
        Under.pure ?_
      exact ⟨relabel done grows, nofun⟩
    · split
      · apply Under.pure
        exact ⟨relabel _ (spreadPlace_grows ..), nofun⟩
      · rename_i shared
        refine Under.bind (placeOnOneSocket_grows r _ r.numTasksForHost site.sockets shared
          shared) fun found grows => ?_
        rcases found with none | ⟨placed, count⟩
        · exact Under.pure ⟨relabel _ (Site.Grows.refl _), fun _ => shared⟩
        · exact Under.pure ⟨relabel placed (grows _ rfl), nofun⟩

end

theorem tryReqs_grows (reqs : List Req) (site : Site) :
    Under (Look.Fair restored) (tryReqs F reqs site) fun tried =>
      Site.Grows restored site tried.site ∧ ∀ r ∈ tried.putOff, r.placeType.shared := by
  induction reqs generalizing site with
  | nil => exact Under.pure ⟨Site.Grows.refl site, nofun⟩
  | cons r reqs ih =>
    refine Under.bind (tryReq_grows r site) fun tried one => ?_
    split
    · exact Under.pure ⟨one.1, nofun⟩
    · refine Under.bind (ih tried.site) fun rest more => Under.pure ?_
      refine ⟨one.1.trans more.1, ?_⟩
      split
      · rename_i off
        exact forall_mem_cons.mpr ⟨one.2 off, more.2⟩
      · exact more.2

theorem placePutOff_grows (r : Req) (site : Site) (shared : r.placeType.shared) :
    Under (Look.Fair restored) (placePutOff F r site) fun done =>
      Site.Grows restored site done.1 := by
  have fit : Under (Look.Fair restored) (fitTasksWithinSockets F r site.sockets
      { site.alloc with placeType := r.placeType } r.numTasksForHost) fun fitted =>
        Site.Grows restored site fitted.1 :=
    (fitTasksWithinSockets_grows r site.sockets r.numTasksForHost shared shared).mono
      fun fitted grows => Numa.Grows.relabel grows rfl rfl grows.jobid
  refine Under.bind fit fun fitted first => ?_
  split
  · refine Under.bind (placeRemaining_grows r fitted.1 fitted.2.toNat shared)
      fun done second => Under.pure ?_
    exact first.trans second
  · exact Under.pure first

theorem placeAllPutOff_grows {reqs : List Req} (site : Site)
    (shared : ∀ r ∈ reqs, r.placeType.shared) :
    Under (Look.Fair restored) (placeAllPutOff F reqs site) fun done =>
      Site.Grows restored site done.1 := by
  induction reqs generalizing site with
  | nil => exact Under.pure (Site.Grows.refl site)
  | cons r reqs ih =>
    refine Under.bind (placePutOff_grows r site (shared r mem_cons_self))
      fun done first => ?_
    refine Under.bind (ih done.1 (forall_mem_cons.1 shared).2)
      fun rest second => Under.pure ?_
    exact first.trans second

/-! ## Jobs -/

/-- What a call of `place_job` does: the chips get records of the job, and the
machine at most one, which lists nothing that has not been recorded there. -/
structure Places (restored : Prop) (jobid : String) (machine machine' : Machine) : Prop where
  extended : List.Forall₂ (Chip.Extends restored jobid) machine.chips machine'.chips
  records : ∃ added, machine'.allocations = machine.allocations ++ added ∧
    (∀ a ∈ added, a.jobid = jobid) ∧
    ∀ resource, (added.flatMap Allocation.resources).count resource +
      recordedOn jobid machine.chips resource ≤ recordedOn jobid machine'.chips resource

variable (machine : Machine) (jobid : String)

theorem placeJob_places (reqs : List Req) :
    Under (Look.Fair restored) (machine.placeJob F jobid reqs) fun done =>
      Places restored jobid machine done.1 := by
  refine Under.bind (tryReqs_grows reqs ⟨machine.sockets, .ofJob jobid⟩)
    fun tried first => ?_
  split
  · apply Under.pure
    refine ⟨first.1.extended, [], (append_nil _).symm, by simp, ?_⟩
    intro resource
    rw [flatMap_nil, count_nil, Nat.zero_add]
    exact recordedOn_le first.1.extended jobid resource
  · refine Under.bind (placeAllPutOff_grows tried.site first.2) fun done second =>
      Under.pure ?_
    have both := first.1.trans second
    refine ⟨both.extended, [done.1.alloc], rfl, forall_mem_singleton.mpr both.jobid, ?_⟩
    intro resource
    have count := both.recorded resource
    rw [show (Allocation.ofJob jobid).resources = [] from rfl, count_nil, Nat.zero_add] at count
    rw [flatMap_singleton]
    exact count

/-- `free_job_allocation` frees the job on every chip. -/
theorem chips_freeJobAllocation :
    (machine.freeJobAllocation jobid).chips = machine.chips.map fun chip => chip.freeTask jobid := by
  unfold chips freeJobAllocation
  rw [flatMap_map, map_flatMap]
  rfl

end Machine

end Torque.Numa
