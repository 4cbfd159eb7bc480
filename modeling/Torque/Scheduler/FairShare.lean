import Torque.Scheduler.Cursors
import Torque.Structure.Tally

/-!
# Choosing jobs by their share

With fair share `extract_fairshare` chooses the job of an array that has the best share for its
usage, among those that do not run and are not marked.  Those are the jobs that still wait, and the
jobs that the server failed to run.

If all jobs of the server are one array the cycle goes on as long as a job waits.  If the queues
are taken one after the other a cursor goes through the array of the queue all the same, and passes
over marked jobs: as many jobs wait as there are unmarked jobs behind the cursor.
-/

namespace Torque.Scheduler

open Torque.Numa List

variable {F : Type}

/-! ## The job with the best share -/

section

variable [Floating F] {sinfo : ServerInfo F} {jobs : List JobRef}

/-- The best job so far is one of the array that may be chosen; it is there as soon as the share
of some such job is above the first value. -/
structure BestOf (sinfo : ServerInfo F) (jobs : List JobRef) (best : Option JobRef × F) :
    Prop where
  chosen : ∀ job ∈ best.1, job ∈ jobs ∧ (sinfo.jobInfo job).isRunning = false ∧
    (sinfo.jobInfo job).canNotRun = false
  first : best.1 = none → best.2 = Floating.ofInt (-1) ∧ ∀ job ∈ jobs,
    (sinfo.jobInfo job).isRunning = false → (sinfo.jobInfo job).canNotRun = false →
      Floating.lt (Floating.ofInt (-1)) (share sinfo job) = false

theorem BestOf.fairer {best : Option JobRef × F} (bestOf : BestOf sinfo jobs best) (job : JobRef) :
    BestOf sinfo (jobs ++ [job]) (fairer sinfo best job) := by
  unfold Scheduler.fairer
  dsimp only
  split
  · next better =>
    refine ⟨?_, nofun⟩
    rintro chosen ⟨⟩
    exact ⟨mem_concat_self, better.2⟩
  · next worse =>
    constructor
    · intro chosen mem
      rcases bestOf.chosen chosen mem with ⟨here, free⟩
      exact ⟨mem_append_left _ here, free⟩
    · intro missing
      rcases bestOf.first missing with ⟨value, low⟩
      refine ⟨value, fun other mem idle unmarked => ?_⟩
      rcases mem_append.1 mem with before | last
      · exact low other before idle unmarked
      · rw [mem_singleton.1 last] at idle unmarked ⊢
        rw [value] at worse
        exact Bool.eq_false_iff.2 fun above => worse ⟨above, idle, unmarked⟩

theorem bestOf_extractFairshare (sinfo : ServerInfo F) (jobs : List JobRef) :
    BestOf sinfo jobs (jobs.foldl (fairer sinfo) (none, Floating.ofInt (-1))) := by
  induction jobs using reverseRecOn with
  | nil =>
    constructor
    · rintro job ⟨⟩
    · exact fun _ => ⟨rfl, forall_mem_nil _⟩
  | append_singleton jobs job ih =>
    rw [foldl_append]
    exact ih.fairer job

end

/-! ## The jobs that wait -/

/-- The job has not been considered, and is not marked. -/
def Cycle.isWaiting (cycle : Cycle F) (job : JobRef) : Bool :=
  decide (job ∉ cycle.jobs) && !(cycle.sinfo.jobInfo job).canNotRun

theorem isWaiting_iff {cycle : Cycle F} {job : JobRef} :
    cycle.isWaiting job = true ↔
      job ∉ cycle.jobs ∧ (cycle.sinfo.jobInfo job).canNotRun = false := by
  simp [Cycle.isWaiting]

section

variable {policy : Policy} {sinfo : ServerInfo F} {cycle : Cycle F} {job : JobRef}

/-- If no job waits, all are considered or excused. -/
theorem Tracked.covered (tracked : Tracked policy sinfo cycle)
    (none_ : ∀ job ∈ sinfo.jobs, cycle.isWaiting job = false) : Covered policy sinfo cycle := by
  intro job mem
  by_cases considered : job ∈ cycle.jobs
  · exact .inl considered
  · have still := none_ job mem
    simp only [Cycle.isWaiting, considered, not_false_eq_true, decide_true, Bool.true_and,
      Bool.not_eq_eq_eq_not, Bool.not_false] at still
    exact .inr (tracked.excused considered still)

theorem Tracked.not_running (tracked : Tracked policy sinfo cycle) (queried : Queried sinfo)
    (mem : job ∈ sinfo.jobs) (waiting : cycle.isWaiting job = true) :
    (cycle.sinfo.jobInfo job).isRunning = false := by
  rcases isWaiting_iff.1 waiting with ⟨left, unmarked⟩
  rw [(tracked.frames job left).rest]
  apply queried.queued job mem
  by_contra unqueued
  have marked := tracked.keeps.marks job
    (queried.unqueued job mem (Bool.eq_false_iff.2 unqueued))
  rw [unmarked] at marked
  cases marked

variable [Floating F] {answers : Answers} {jobs : List JobRef} {other : JobRef}
  {iterator : Iterator}

/-- A job that is considered waits no longer, and no other begins to wait. -/
theorem isWaiting_after
    (waiting : (cycle.after policy answers iterator job).isWaiting other = true) :
    cycle.isWaiting other = true ∧ other ≠ job := by
  rcases isWaiting_iff.1 waiting with ⟨left, unmarked⟩
  rw [jobs_after, mem_append, mem_singleton, not_or] at left
  refine ⟨isWaiting_iff.2 ⟨left.1, ?_⟩, left.2⟩
  by_contra marked
  have still := (keeps_considerJob policy answers cycle.sinfo job).marks other
    (Bool.eq_true_of_not_eq_false marked)
  exact absurd unmarked (by simpa [Cycle.after] using still)

/-- Without strict order the marks of all others stay as they are. -/
theorem canNotRun_of_ne (unstrict : policy.strictFifo = false) (ne : other ≠ job) :
    ((considerJob policy answers sinfo job).2.jobInfo other).canNotRun =
      (sinfo.jobInfo other).canNotRun := by
  rw [Bool.eq_iff_iff]
  constructor
  · intro marked
    rcases (frames_considerJob other (mt mem_singleton.1 ne)).fresh marked with before | strict
    · exact before
    · rw [unstrict] at strict
      cases strict
  · exact (keeps_considerJob policy answers sinfo job).marks other

/-- Without strict order all others go on waiting. -/
theorem isWaiting_after_iff (unstrict : policy.strictFifo = false) :
    (cycle.after policy answers iterator job).isWaiting other = true ↔
      cycle.isWaiting other = true ∧ other ≠ job := by
  constructor
  · exact isWaiting_after
  · rintro ⟨waiting, ne⟩
    rcases isWaiting_iff.1 waiting with ⟨left, unmarked⟩
    refine isWaiting_iff.2 ⟨?_, ?_⟩
    · rw [jobs_after, mem_append, mem_singleton, not_or]
      exact ⟨left, ne⟩
    · exact (canNotRun_of_ne unstrict ne).trans unmarked

/-! ## `extract_fairshare` -/

/-- The job that is chosen waits, unless it is one that the server failed to run. -/
theorem Tracked.isWaiting_of_extracted (tracked : Tracked policy sinfo cycle)
    (extracted : extractFairshare cycle.sinfo jobs = some job)
    (fresh : ∀ entry ∈ cycle.considered, entry.outcome = .runFailed → entry.job ≠ job) :
    job ∈ jobs ∧ cycle.isWaiting job = true := by
  rcases (bestOf_extractFairshare cycle.sinfo jobs).chosen job extracted with
    ⟨mem, idle, unmarked⟩
  refine ⟨mem, isWaiting_iff.2 ⟨?_, unmarked⟩⟩
  intro considered
  rcases mem_map.1 considered with ⟨entry, here, rfl⟩
  by_cases failed : entry.outcome = .runFailed
  · exact fresh entry here failed rfl
  · rcases tracked.settled entry here failed with runs | marked
    · rw [idle] at runs
      cases runs
    · rw [unmarked] at marked
      cases marked

theorem Tracked.not_waiting_of_none (tracked : Tracked policy sinfo cycle)
    (queried : Queried sinfo) (within : ∀ job ∈ jobs, job ∈ sinfo.jobs)
    (shares : ∀ job ∈ cycle.sinfo.jobs, (cycle.sinfo.jobInfo job).isRunning = false →
      (cycle.sinfo.jobInfo job).canNotRun = false →
      Floating.lt (Floating.ofInt (-1)) (share cycle.sinfo job) = true)
    (missing : extractFairshare cycle.sinfo jobs = none) :
    ∀ job ∈ jobs, cycle.isWaiting job = false := by
  intro job mem
  by_contra waiting
  have waits := Bool.eq_true_of_not_eq_false waiting
  have idle := tracked.not_running queried (within job mem) waits
  have unmarked := (isWaiting_iff.1 waits).2
  have low := ((bestOf_extractFairshare cycle.sinfo jobs).first missing).2 job mem idle unmarked
  have above := shares job (tracked.keeps.order ▸ within job mem) idle unmarked
  rw [low] at above
  cases above

/-- A job that is not refused keeps its mark. -/
theorem canNotRun_of_not_refused (passes : (isOkToRunJob policy answers.query sinfo job).1 = none) :
    ((considerJob policy answers sinfo job).2.jobInfo job).canNotRun =
      (sinfo.jobInfo job).canNotRun := by
  refine considerJob_induction (motive := fun _ sinfo' => (sinfo'.jobInfo job).canNotRun = _) ?_ ?_ ?_
  · intro _ _ _
    rw [jobInfo_updateOnRun, Function.update_self, ServerInfo.flagged, jobInfo_putJob]
  · intro _ _ _
    rw [ServerInfo.flagged, jobInfo_putJob]
  · intro _ _ refused
    rw [passes] at refused
    cases refused

end

/-! ## One queue after the other -/

theorem Queried.apart {sinfo : ServerInfo F} (queried : Queried sinfo)
    {before after : List QueueRef} {queue : QueueRef} {n : Nat}
    (split : sinfo.queues.drop n = before ++ queue :: after) :
    queue ∈ sinfo.queues ∧ (sinfo.queueInfo queue).jobs.Nodup ∧
      (∀ job ∈ (sinfo.queueInfo queue).jobs, job ∈ sinfo.jobs) ∧
      ∀ other ∈ after, ∀ job ∈ (sinfo.queueInfo other).jobs,
        job ∉ (sinfo.queueInfo queue).jobs := by
  have nodup := queried.all.nodup_iff.1 queried.nodup
  rw [← take_append_drop n sinfo.queues, split, ← append_assoc, flatMap_append,
    flatMap_cons] at nodup
  have here := (nodup_append.1 (nodup_append.1 nodup).2.1)
  have listed : queue ∈ sinfo.queues := by
    apply mem_of_mem_drop (i := n)
    rw [split]
    exact mem_append_right _ mem_cons_self
  refine ⟨listed, here.1, ?_, ?_⟩
  · intro job mem
    rw [queried.all.mem_iff, mem_flatMap]
    exact ⟨queue, listed, mem⟩
  · intro other later job mem shared
    exact here.2.2 job shared job (mem_flatMap.2 ⟨other, later, mem⟩) rfl

section

variable {policy : Policy} {sinfo : ServerInfo F} {cycle : Cycle F} {jobs : List JobRef}
  {position : Nat} {queue : QueueRef} {queues : List QueueRef} {lastJob lastQueue : Int}

/-- The job is not marked. -/
def Cycle.isUnmarked (cycle : Cycle F) (job : JobRef) : Bool :=
  !(cycle.sinfo.jobInfo job).canNotRun

/-- In the first queue as many jobs wait as there are unmarked jobs from a position on, and
no job of the queues behind it has been considered. -/
def Level (sinfo : ServerInfo F) (cycle : Cycle F) : List QueueRef → Nat → Prop
  | [], _ => True
  | queue :: queues, position =>
    (sinfo.queueInfo queue).jobs.countP cycle.isWaiting =
        ((sinfo.queueInfo queue).jobs.drop position).countP cycle.isUnmarked ∧
      ∀ other ∈ queues, ∀ job ∈ (sinfo.queueInfo other).jobs, job ∉ cycle.jobs

/-- Of jobs that have not been considered the unmarked ones wait. -/
theorem countP_isWaiting (new : ∀ job ∈ jobs, job ∉ cycle.jobs) :
    jobs.countP cycle.isWaiting = jobs.countP cycle.isUnmarked := by
  refine countP_congr fun job mem => ?_
  simp [Cycle.isWaiting, Cycle.isUnmarked, new job mem]

theorem level_start (policy : Policy) (sinfo : ServerInfo F) (queues : List QueueRef) :
    Level sinfo (.start policy sinfo) queues 0 := by
  cases queues with
  | nil => trivial
  | cons queue queues =>
    constructor
    · exact countP_isWaiting fun _ _ => not_mem_nil
    · exact fun _ _ _ _ => not_mem_nil

theorem Level.next (level : Level sinfo cycle (queue :: queues) position) :
    Level sinfo cycle queues 0 := by
  cases queues with
  | nil => trivial
  | cons next queues =>
    constructor
    · exact countP_isWaiting (level.2 next mem_cons_self)
    · exact (forall_mem_cons.1 level.2).2

/-- Behind a cursor with marked jobs only, no job waits. -/
theorem Level.not_waiting (level : Level sinfo cycle (queue :: queues) position)
    (marked : ∀ job ∈ (sinfo.queueInfo queue).jobs.drop position, cycle.isUnmarked job = false) :
    ∀ job ∈ (sinfo.queueInfo queue).jobs, cycle.isWaiting job = false := by
  have none_ := countP_eq_zero.2 fun job mem => Bool.eq_false_iff.1 (marked job mem)
  have zero := level.1.trans none_
  exact fun job mem => Bool.eq_false_iff.2 (countP_eq_zero.1 zero job mem)

/-- The loop passes over queues in which no job waits, and stops where one does. -/
theorem Level.byQueueLoop_some (keeps : Keeps sinfo cycle.sinfo) {lastQueue' lastJob' : Int}
    (standing : 0 ≤ lastJob) (level : Level sinfo cycle queues lastJob.toNat)
    (found : byQueueLoop cycle.sinfo queues lastQueue lastJob =
      (lastQueue', lastJob', some queue)) :
    ∃ before after, queues = before ++ queue :: after ∧
      lastQueue' = lastQueue + before.length ∧ 0 ≤ lastJob' ∧
      (∀ other ∈ before, ∀ job ∈ (sinfo.queueInfo other).jobs, cycle.isWaiting job = false) ∧
      (sinfo.queueInfo queue).jobs.countP cycle.isWaiting =
        ((sinfo.queueInfo queue).jobs.drop (lastJob'.toNat + 1)).countP cycle.isUnmarked + 1 ∧
      ∀ other ∈ after, ∀ job ∈ (sinfo.queueInfo other).jobs, job ∉ cycle.jobs := by
  induction queues generalizing lastQueue lastJob with
  | nil => cases found
  | cons first queues ih =>
    unfold byQueueLoop at found
    split at found
    · next position job eligible =>
      cases found
      rcases nextEligible_some eligible with
        ⟨skipped, rest, remaining, marked, unmarked, rfl⟩
      rw [keeps.jobs] at remaining
      have further : (lastJob + skipped.length).toNat = lastJob.toNat + skipped.length := by
        omega
      have skips : skipped.countP cycle.isUnmarked = 0 :=
        countP_eq_zero.2 fun other mem => Bool.eq_false_iff.1 (marked other mem)
      refine ⟨[], queues, rfl, by simp, by omega, forall_mem_nil _, ?_, level.2⟩
      rw [further, (drop_behind remaining).2, level.1, remaining, countP_append, skips, Nat.zero_add,
        countP_cons_of_pos (show cycle.isUnmarked job = true from unmarked)]
    · next position eligible =>
      have marked := nextEligible_none (congrArg Prod.snd eligible)
      rw [keeps.jobs] at marked
      rcases ih le_rfl level.next found with
        ⟨before, after, rfl, rfl, standing', none_, count, new⟩
      exact ⟨first :: before, after, rfl, by rw [length_cons]; omega, standing',
        forall_mem_cons.2 ⟨level.not_waiting marked, none_⟩, count, new⟩

theorem Level.byQueueLoop_none (keeps : Keeps sinfo cycle.sinfo)
    (level : Level sinfo cycle queues lastJob.toNat)
    (found : (byQueueLoop cycle.sinfo queues lastQueue lastJob).2.2 = none) :
    ∀ queue ∈ queues, ∀ job ∈ (sinfo.queueInfo queue).jobs, cycle.isWaiting job = false := by
  have marked := Scheduler.byQueueLoop_none found
  rw [queueAgenda_congr keeps] at marked
  cases queues with
  | nil => exact forall_mem_nil _
  | cons first queues =>
    refine forall_mem_cons.2 ⟨level.not_waiting fun job here => ?_, ?_⟩
    · simp [Cycle.isUnmarked, marked job (mem_append_left _ here)]
    · intro queue later job here
      have listed : job ∈ queueAgenda sinfo (first :: queues) lastJob.toNat :=
        mem_append_right _ (mem_flatMap.2 ⟨queue, later, here⟩)
      simp [Cycle.isWaiting, marked job listed]

/-- No job waits in the queues before the cursor, and the rest is level. -/
structure ByTurns (policy : Policy) (sinfo : ServerInfo F) (cycle : Cycle F) : Prop where
  tracked : Tracked policy sinfo cycle
  standing : InQueues cycle.iterator
  earlier : ∀ queue ∈ sinfo.queues.take cycle.iterator.lastQueue.toNat,
    ∀ job ∈ (sinfo.queueInfo queue).jobs, cycle.isWaiting job = false
  level : Level sinfo cycle (sinfo.queues.drop cycle.iterator.lastQueue.toNat)
    (cycle.iterator.lastJob + 1).toNat

/-- If no job waits from the cursor on, none waits. -/
theorem ByTurns.covered (byTurns : ByTurns policy sinfo cycle) (queried : Queried sinfo)
    (none_ : ∀ queue ∈ sinfo.queues.drop cycle.iterator.lastQueue.toNat,
      ∀ job ∈ (sinfo.queueInfo queue).jobs, cycle.isWaiting job = false) :
    Covered policy sinfo cycle := by
  apply byTurns.tracked.covered
  intro job mem
  rw [queried.all.mem_iff, mem_flatMap] at mem
  rcases mem with ⟨queue, inQueues, here⟩
  rw [← take_append_drop cycle.iterator.lastQueue.toNat sinfo.queues, mem_append] at inQueues
  rcases inQueues with early | late
  · exact byTurns.earlier queue early job here
  · exact none_ queue late job here

variable [Floating F] {job : JobRef} {answers : Answers} {iterator : Iterator}

omit [Floating F] in
theorem le_idxOf_of_mem_drop (nodup : jobs.Nodup) (behind : job ∈ jobs.drop position) :
    position ≤ jobs.idxOf job := by
  by_contra early
  have here := (mem_take_iff_idxOf_lt (mem_of_mem_drop behind)).2 (not_le.1 early)
  exact disjoint_take_drop nodup le_rfl here behind

theorem isWaiting_after_self :
    (cycle.after policy answers iterator job).isWaiting job = false :=
  Bool.eq_false_iff.2 fun still => (isWaiting_after still).2 rfl

theorem countP_isWaiting_after_lt (mem : job ∈ jobs) (waiting : cycle.isWaiting job = true) :
    jobs.countP (cycle.after policy answers iterator job).isWaiting <
      jobs.countP cycle.isWaiting := by
  have perm := perm_cons_erase mem
  rw [perm.countP_eq, perm.countP_eq,
    countP_cons_of_neg (Bool.eq_false_iff.1 isWaiting_after_self), countP_cons_of_pos waiting]
  exact Nat.lt_succ_of_le (countP_mono_left fun other _ still => (isWaiting_after still).1)

theorem countP_isWaiting_after (unstrict : policy.strictFifo = false) (nodup : jobs.Nodup)
    (mem : job ∈ jobs) (waiting : cycle.isWaiting job = true) :
    jobs.countP (cycle.after policy answers iterator job).isWaiting + 1 =
      jobs.countP cycle.isWaiting := by
  have same : ∀ other, other ≠ job →
      (cycle.after policy answers iterator job).isWaiting other = cycle.isWaiting other := by
    intro other ne
    rw [Bool.eq_iff_iff, isWaiting_after_iff unstrict]
    exact and_iff_left ne
  simpa [waiting, isWaiting_after_self] using Structure.countP_turned nodup mem same

/-- The marks behind the cursor stay as they are if the job is refused in its place. -/
theorem countP_isUnmarked_after (unstrict : policy.strictFifo = false)
    (passes : job ∈ jobs → (isOkToRunJob policy answers.query cycle.sinfo job).1 = none) :
    jobs.countP (cycle.after policy answers iterator job).isUnmarked =
      jobs.countP cycle.isUnmarked := by
  refine countP_congr fun other mem => ?_
  have same : ((considerJob policy answers cycle.sinfo job).2.jobInfo other).canNotRun =
      (cycle.sinfo.jobInfo other).canNotRun := by
    by_cases here : other = job
    · rw [here] at mem ⊢
      exact canNotRun_of_not_refused (passes mem)
    · exact canNotRun_of_ne unstrict here
  simp only [Cycle.isUnmarked, Cycle.after, same]

/-- The cursor has moved, and a job of the queue has been considered. -/
theorem ByTurns.after (byTurns : ByTurns policy sinfo cycle) (queried : Queried sinfo)
    (unstrict : policy.strictFifo = false)
    (found : byQueueLoop cycle.sinfo (sinfo.queues.drop cycle.iterator.lastQueue.toNat)
      cycle.iterator.lastQueue (cycle.iterator.lastJob + 1) =
        (iterator.lastQueue, iterator.lastJob, some queue))
    (mem : job ∈ (sinfo.queueInfo queue).jobs) (waiting : cycle.isWaiting job = true)
    (inPlace : (isOkToRunJob policy answers.query cycle.sinfo job).1 ≠ none →
      (cycle.sinfo.queueOf job).jobs.idxOf job ≤ iterator.lastJob) :
    ByTurns policy sinfo (cycle.after policy answers iterator job) := by
  have start := byTurns.standing.lastQueue
  rcases byTurns.level.byQueueLoop_some byTurns.tracked.keeps byTurns.standing.next_nonneg
    found with ⟨before, after, split, further, lastJob, passed, count, new⟩
  have position : iterator.lastQueue.toNat =
      cycle.iterator.lastQueue.toNat + before.length := by omega
  rcases queried.apart split with ⟨here, nodup, within, disjoint⟩
  have own : (cycle.sinfo.queueOf job).jobs = (sinfo.queueInfo queue).jobs := by
    rw [byTurns.tracked.keeps.queueOf, ServerInfo.queueOf, queried.owned queue here job mem]
  rw [own] at inPlace
  constructor
  · exact byTurns.tracked.after answers iterator (within job mem) (isWaiting_iff.1 waiting).1
  · change InQueues iterator
    exact ⟨by omega, by omega⟩
  · intro other early job' here
    refine Bool.eq_false_iff.2 fun still => Bool.eq_false_iff.1 ?_ (isWaiting_after still).1
    change other ∈ sinfo.queues.take iterator.lastQueue.toNat at early
    rw [position, take_add, split, take_left, mem_append] at early
    rcases early with early | passing
    · exact byTurns.earlier other early job' here
    · exact passed other passing job' here
  · change Level sinfo (cycle.after policy answers iterator job)
      (sinfo.queues.drop iterator.lastQueue.toNat) (iterator.lastJob + 1).toNat
    have next : (iterator.lastJob + 1).toNat = iterator.lastJob.toNat + 1 := by omega
    rw [position, next, ← drop_drop, split, drop_left]
    constructor
    · have passes : job ∈ (sinfo.queueInfo queue).jobs.drop (iterator.lastJob.toNat + 1) →
          (isOkToRunJob policy answers.query cycle.sinfo job).1 = none := by
        intro behind
        by_contra refused
        have place := inPlace refused
        have later := le_idxOf_of_mem_drop nodup behind
        omega
      rw [countP_isUnmarked_after unstrict passes]
      exact Nat.add_right_cancel
        ((countP_isWaiting_after unstrict nodup mem waiting).trans count)
    · intro other later job' here
      rw [jobs_after, mem_append, mem_singleton, not_or]
      refine ⟨new other later job' here, ?_⟩
      rintro rfl
      exact disjoint other later job' here mem

end

end Torque.Scheduler
