import Torque.Scheduler.RoundRobin

/-!
# The modes of `next_job`

`next_job` goes through the array of the server, through the arrays of the queues one after the
other, or round the queues; and it chooses by position or by share.

Whatever the policy, and whatever the server answers, it returns only jobs of the server that do
not run.  Where it goes by shares `extract_fairshare` sees to that; where it goes by positions it
comes to no job twice.
-/

namespace Torque.Scheduler

open Torque.Numa

variable {F : Type} [Floating F] {policy : Policy} {sinfo : ServerInfo F} {cycle : Cycle F}

/-! ## What `next_job` does without the round robin -/

section

variable (single : policy.roundRobin = false)
include single

theorem nextJob_of_strict (strict : policy.strictFifo = true) (sinfo : ServerInfo F)
    (iterator : Iterator) :
    nextJob policy sinfo iterator =
      let found := nextEligible (·.isQueued) sinfo (serverAgenda sinfo iterator)
        (iterator.lastJob + 1)
      ({ iterator with lastJob := found.1 }, found.2) := by
  unfold nextJob
  rw [if_neg (Bool.eq_false_iff.1 single), if_pos strict]
  rfl

variable (unstrict : policy.strictFifo = false)
include unstrict

theorem nextJob_of_plain (one : policy.byQueue = false) (plain : policy.fairShare = false)
    (sinfo : ServerInfo F) (iterator : Iterator) :
    nextJob policy sinfo iterator =
      let found := nextEligible (!·.canNotRun) sinfo (serverAgenda sinfo iterator)
        (iterator.lastJob + 1)
      ({ iterator with lastJob := found.1 }, found.2) := by
  unfold nextJob
  rw [if_neg (Bool.eq_false_iff.1 single), if_neg (Bool.eq_false_iff.1 unstrict),
    if_neg (Bool.eq_false_iff.1 one), if_neg (Bool.eq_false_iff.1 plain)]
  rfl

theorem nextJob_of_fair (one : policy.byQueue = false) (fair : policy.fairShare = true)
    (sinfo : ServerInfo F) (iterator : Iterator) :
    nextJob policy sinfo iterator = (iterator, extractFairshare sinfo sinfo.jobs) := by
  unfold nextJob
  rw [if_neg (Bool.eq_false_iff.1 single), if_neg (Bool.eq_false_iff.1 unstrict),
    if_neg (Bool.eq_false_iff.1 one), if_pos fair]

theorem nextJob_of_byQueue (byQueue : policy.byQueue = true) (sinfo : ServerInfo F)
    (iterator : Iterator) :
    nextJob policy sinfo iterator =
      let found := byQueueLoop sinfo (sinfo.queues.drop iterator.lastQueue.toNat)
        iterator.lastQueue (iterator.lastJob + 1)
      ({ iterator with lastQueue := found.1, lastJob := found.2.1 },
        found.2.2.bind fun queue =>
          if policy.fairShare then extractFairshare sinfo (sinfo.queueInfo queue).jobs
          else (sinfo.queueInfo queue).jobs[found.2.1.toNat]?) := by
  unfold nextJob
  rw [if_neg (Bool.eq_false_iff.1 single), if_neg (Bool.eq_false_iff.1 unstrict), if_pos byQueue]

end

omit [Floating F] in
theorem serverAgenda_congr {sinfo' : ServerInfo F} (keeps : Keeps sinfo sinfo')
    (iterator : Iterator) : serverAgenda sinfo' iterator = serverAgenda sinfo iterator := by
  unfold serverAgenda
  rw [keeps.order]

/-- The cursor goes through the array of the server. -/
structure Walking (policy : Policy) (sinfo : ServerInfo F) (cycle : Cycle F) : Prop where
  on : OnAgenda policy sinfo cycle (serverAgenda sinfo cycle.iterator)
  standing : -1 ≤ cycle.iterator.lastJob

/-- The cursor goes through the arrays of the queues. -/
structure Passing (policy : Policy) (sinfo : ServerInfo F) (cycle : Cycle F) : Prop where
  on : OnAgenda policy sinfo cycle (byQueueAgenda sinfo cycle.iterator)
  standing : InQueues cycle.iterator

omit [Floating F] in
theorem iterator_start (single : policy.roundRobin = false) (sinfo : ServerInfo F) :
    (Cycle.start policy sinfo).iterator = ⟨[], 0, -1⟩ := by
  unfold Cycle.start nextJobInit
  rw [single]
  rfl

/-! ## The jobs that are returned do not run -/

/-- An invariant of all rounds with which the jobs that are returned do not run. -/
structure Proper (policy : Policy) (sinfo : ServerInfo F) (Invariant : Cycle F → Prop) :
    Prop where
  start : Invariant (.start policy sinfo)
  keeps : ∀ cycle, Invariant cycle → Keeps sinfo cycle.sinfo
  idle : ∀ cycle iterator job, Invariant cycle →
    nextJob policy cycle.sinfo cycle.iterator = (iterator, some job) →
    job ∈ sinfo.jobs ∧ (cycle.sinfo.jobInfo job).isRunning = false
  after : ∀ cycle iterator job answers, Invariant cycle →
    nextJob policy cycle.sinfo cycle.iterator = (iterator, some job) →
    Invariant (cycle.after policy answers iterator job)

omit [Floating F] in
/-- A job on the agenda that is queued, or not marked, does not run. -/
theorem OnAgenda.idle {agenda : List JobRef} (on : OnAgenda policy sinfo cycle agenda)
    (queried : Queried sinfo) {job : JobRef} (mem : job ∈ agenda)
    (free : (cycle.sinfo.jobInfo job).isQueued = true ∨
      (cycle.sinfo.jobInfo job).canNotRun = false) :
    job ∈ sinfo.jobs ∧ (cycle.sinfo.jobInfo job).isRunning = false := by
  have here := on.known job mem
  have left := on.ahead job mem
  refine ⟨here, ?_⟩
  rcases free with queued | unmarked
  · rw [(on.tracked.frames job left).rest] at queued ⊢
    exact queried.queued job here queued
  · exact on.tracked.not_running queried here (isWaiting_iff.2 ⟨left, unmarked⟩)

/-- The policy goes through the array of the server, to the jobs that are eligible. -/
structure Walks (policy : Policy) (sinfo : ServerInfo F) (eligible : JobInfo F → Bool) :
    Prop where
  single : policy.roundRobin = false
  next : ∀ cycle : Cycle F, nextJob policy cycle.sinfo cycle.iterator =
    let found := nextEligible eligible cycle.sinfo (serverAgenda cycle.sinfo cycle.iterator)
      (cycle.iterator.lastJob + 1)
    ({ cycle.iterator with lastJob := found.1 }, found.2)
  excuses : ∀ cycle : Cycle F, Walking policy sinfo cycle →
    ∀ job ∈ serverAgenda sinfo cycle.iterator, eligible (cycle.sinfo.jobInfo job) = false →
      Excused policy sinfo cycle job
  free : ∀ jinfo : JobInfo F, eligible jinfo = true →
    jinfo.isQueued = true ∨ jinfo.canNotRun = false

theorem walks_of_strict (single : policy.roundRobin = false) (strict : policy.strictFifo = true) :
    Walks policy sinfo (·.isQueued) where
  single := single
  next _ := nextJob_of_strict single strict _ _
  excuses _ walking _ mem := walking.on.excused_of_unqueued mem
  free _ queued := .inl queued

theorem walks_of_plain (single : policy.roundRobin = false) (unstrict : policy.strictFifo = false)
    (one : policy.byQueue = false) (plain : policy.fairShare = false) :
    Walks policy sinfo (!·.canNotRun) where
  single := single
  next _ := nextJob_of_plain single unstrict one plain _ _
  excuses _ walking _ mem := walking.on.excused_of_marked mem
  free _ unmarked := .inr (by simpa using unmarked)

theorem Walks.proper {eligible : JobInfo F → Bool} (walks : Walks policy sinfo eligible)
    (queried : Queried sinfo) : Proper policy sinfo (Walking policy sinfo) := by
  have start := iterator_start walks.single sinfo
  constructor
  · constructor
    · rw [start]
      exact .start queried (List.Perm.refl _)
    · rw [start]
  · exact fun _ walking => walking.on.tracked.keeps
  · intro cycle iterator job walking next
    rw [walks.next, serverAgenda_congr walking.on.tracked.keeps] at next
    rcases nextEligible_some (Prod.ext rfl (Prod.mk.inj next).2) with
      ⟨skipped, rest, agenda, -, ok, -⟩
    refine walking.on.idle queried ?_ (walks.free _ ok)
    rw [agenda]
    exact List.mem_append_right _ List.mem_cons_self
  · intro cycle iterator job answers walking next
    rw [walks.next, serverAgenda_congr walking.on.tracked.keeps] at next
    rcases Prod.mk.inj next with ⟨rfl, found⟩
    rcases walking.on.after_nextEligible walking.standing (walks.excuses cycle walking)
      (Prod.ext rfl found) answers with ⟨on, standing⟩
    exact ⟨on, standing⟩

theorem proper_passing (queried : Queried sinfo) (single : policy.roundRobin = false)
    (unstrict : policy.strictFifo = false) (byQueue : policy.byQueue = true)
    (plain : policy.fairShare = false) : Proper policy sinfo (Passing policy sinfo) := by
  have start := iterator_start single sinfo
  constructor
  · constructor
    · rw [start]
      refine .start queried (queried.all.trans ?_)
      rw [← queueAgenda_zero]
      exact List.Perm.refl _
    · rw [start]
      exact ⟨le_rfl, le_rfl⟩
  · exact fun _ passing => passing.on.tracked.keeps
  · intro cycle iterator job passing next
    have keeps := passing.on.tracked.keeps
    rw [nextJob_of_byQueue single unstrict byQueue] at next
    rcases Option.bind_eq_some_iff.1 (Prod.mk.inj next).2 with ⟨queue, found, here⟩
    rw [if_neg (Bool.eq_false_iff.1 plain)] at here
    rcases byQueueLoop_some passing.standing.next_nonneg (Prod.ext rfl (Prod.ext rfl found)) with
      ⟨-, after, skipped, job', -, -, -, at_, unmarked, -, agenda⟩
    cases here.symm.trans at_
    refine passing.on.idle queried ?_ (.inr unmarked)
    rw [queueAgenda_congr keeps, keeps.queues] at agenda
    rw [byQueueAgenda, agenda]
    exact List.mem_append_right _ List.mem_cons_self
  · intro cycle iterator job answers passing next
    rw [nextJob_of_byQueue single unstrict byQueue] at next
    rcases Prod.mk.inj next with ⟨rfl, returned⟩
    rcases Option.bind_eq_some_iff.1 returned with ⟨queue, found, here⟩
    rw [if_neg (Bool.eq_false_iff.1 plain)] at here
    rcases passing.on.after_byQueueLoop passing.standing (Prod.ext rfl (Prod.ext rfl found))
      answers with ⟨standing, job', at_, on⟩
    cases here.symm.trans at_
    exact ⟨on, standing⟩

theorem proper_visiting (queried : Queried sinfo) (roundRobin : policy.roundRobin = true)
    (plain : policy.fairShare = false) : Proper policy sinfo (Visiting policy sinfo) where
  start := ⟨0, aligned_start roundRobin, .start queried queried.visitAgenda_perm⟩
  keeps := fun _ ⟨_, _, on⟩ => on.tracked.keeps
  idle := by
    rintro cycle iterator job visiting next
    rcases visiting.next queried roundRobin plain next with ⟨v, on, mem, unmarked⟩
    exact on.idle queried mem (.inr unmarked)
  after _ _ _ answers visiting next := visiting.after queried roundRobin plain next answers

/-- A job that is chosen by its share does not run. -/
theorem idle_of_extracted {jobs : List JobRef} {job : JobRef}
    (within : ∀ job ∈ jobs, job ∈ sinfo.jobs)
    (extracted : extractFairshare cycle.sinfo jobs = some job) :
    job ∈ sinfo.jobs ∧ (cycle.sinfo.jobInfo job).isRunning = false := by
  rcases (bestOf_extractFairshare cycle.sinfo jobs).chosen job extracted with ⟨mem, idle, -⟩
  exact ⟨within job mem, idle⟩

theorem proper_fair (queried : Queried sinfo) (single : policy.roundRobin = false)
    (unstrict : policy.strictFifo = false) (fair : policy.fairShare = true) :
    Proper policy sinfo fun cycle => Keeps sinfo cycle.sinfo where
  start := .refl sinfo
  keeps _ keeps := keeps
  idle := by
    intro cycle iterator job keeps next
    cases byQueue : policy.byQueue with
    | false =>
      rw [nextJob_of_fair single unstrict byQueue fair, keeps.order] at next
      exact idle_of_extracted (fun _ mem => mem) (Prod.mk.inj next).2
    | true =>
      rw [nextJob_of_byQueue single unstrict byQueue] at next
      rcases Option.bind_eq_some_iff.1 (Prod.mk.inj next).2 with ⟨queue, found, extracted⟩
      rw [if_pos fair, keeps.jobs] at extracted
      have here := List.mem_of_mem_drop (byQueueLoop_mem found)
      rw [keeps.queues] at here
      exact idle_of_extracted (fun job mem =>
        queried.all.mem_iff.2 (List.mem_flatMap.2 ⟨queue, here, mem⟩)) extracted
  after _ _ job answers keeps _ := keeps.trans (keeps_considerJob policy answers _ job)

theorem proper_sharing (queried : Queried sinfo) (roundRobin : policy.roundRobin = true)
    (fair : policy.fairShare = true) :
    Proper policy sinfo fun cycle =>
      Keeps sinfo cycle.sinfo ∧ ∃ v, Aligned sinfo v cycle.iterator where
  start := ⟨.refl sinfo, 0, aligned_start roundRobin⟩
  keeps _ invariant := invariant.1
  idle := by
    rintro cycle iterator job ⟨keeps, v, aligned⟩ next
    rcases nextJob_roundRobin_some roundRobin keeps aligned next with ⟨d, chosen, -, -⟩
    rw [visit_of_fair fair keeps] at chosen
    rcases Option.bind_eq_some_iff.1 chosen with ⟨visited, at_, extracted⟩
    have bound : (v + d) % sinfo.queues.length < sinfo.queues.length :=
      Nat.mod_lt _ (pos_of_jobAt at_)
    exact idle_of_extracted (fun job mem => queried.mem_jobs.2 ⟨_, bound, mem⟩) extracted
  after := by
    rintro cycle iterator job answers ⟨keeps, v, aligned⟩ next
    rcases nextJob_roundRobin_some roundRobin keeps aligned next with ⟨d, -, -, further⟩
    exact ⟨keeps.trans (keeps_considerJob policy answers cycle.sinfo job), v + d + 1, further⟩

/-- Whatever the policy, the jobs that are returned do not run. -/
theorem exists_proper (policy : Policy) (queried : Queried sinfo) :
    ∃ Invariant, Proper policy sinfo Invariant := by
  cases roundRobin : policy.roundRobin with
  | true =>
    cases fairShare : policy.fairShare with
    | true => exact ⟨_, proper_sharing queried roundRobin fairShare⟩
    | false => exact ⟨_, proper_visiting queried roundRobin fairShare⟩
  | false =>
    cases strict : policy.strictFifo with
    | true => exact ⟨_, (walks_of_strict roundRobin strict).proper queried⟩
    | false =>
      cases fairShare : policy.fairShare with
      | true => exact ⟨_, proper_fair queried roundRobin strict fairShare⟩
      | false =>
        cases byQueue : policy.byQueue with
        | true => exact ⟨_, proper_passing queried roundRobin strict byQueue fairShare⟩
        | false =>
          exact ⟨_, (walks_of_plain roundRobin strict byQueue fairShare).proper queried⟩

end Torque.Scheduler
