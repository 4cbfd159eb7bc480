import Torque.Scheduler.Cycle
import Torque.Transition.Fair
import Mathlib.Data.List.Nodup

/-!
# Which jobs a cycle considers

A cycle is to consider each queued job once, unless the job is marked before its turn: by
`query_queues`, if its queue may not run jobs, or by `update_jobs_cant_run`, if the order is strict.

What a round does to the records of the jobs is said first.  The record of a job that has not been
considered is the one of the snapshot, up to the mark; a job that has been considered runs, is
marked, or is one that the server failed to run.
-/

namespace Torque.Scheduler

open Torque.Numa Torque.Transition List

variable {F : Type}

/-- The jobs up to the one that is returned are not eligible. -/
theorem nextEligible_some {eligible : JobInfo F → Bool} {sinfo : ServerInfo F}
    {jobs : List JobRef} {position position' : Int} {job : JobRef}
    (found : nextEligible eligible sinfo jobs position = (position', some job)) :
    ∃ skipped rest, jobs = skipped ++ job :: rest ∧
      (∀ other ∈ skipped, eligible (sinfo.jobInfo other) = false) ∧
      eligible (sinfo.jobInfo job) = true ∧ position' = position + skipped.length := by
  induction jobs generalizing position with
  | nil => cases found
  | cons first jobs ih =>
    unfold nextEligible at found
    split at found
    · next ok =>
      cases found
      exact ⟨[], jobs, rfl, List.forall_mem_nil _, ok, by simp⟩
    · next notOk =>
      rcases ih found with ⟨skipped, rest, rfl, ineligible, ok, rfl⟩
      refine ⟨first :: skipped, rest, rfl, ?_, ok, by rw [List.length_cons]; omega⟩
      intro other mem
      rcases List.mem_cons.1 mem with rfl | later
      · exact Bool.eq_false_iff.2 notOk
      · exact ineligible other later

/-- The number of queues that have been visited, over all positions. -/
def Iterator.visited (iterator : Iterator) (numQueues : Nat) : Int :=
  iterator.lastJob * numQueues + iterator.lastQueue + 1

/-! ## The records of the jobs -/

/-- Of the jobs that are not touched at most the marks change, and those only for the strict
order. -/
def Frames (policy : Policy) (touched : List JobRef) (sinfo sinfo' : ServerInfo F) : Prop :=
  ∀ job ∉ touched, (sinfo.jobInfo job).Marks (policy.strictFifo = true) (sinfo'.jobInfo job)

theorem Frames.trans {policy : Policy} {touched more : List JobRef}
    {sinfo sinfo' sinfo'' : ServerInfo F} (first : Frames policy touched sinfo sinfo')
    (second : Frames policy more sinfo' sinfo'') :
    Frames policy (touched ++ more) sinfo sinfo'' := by
  intro job left
  rw [mem_append, not_or] at left
  exact (first job left.1).trans (second job left.2)

theorem jobInfo_updateOnRun [Floating F] (policy : Policy) (bestNode : Option Nat) (job : JobRef)
    (sinfo : ServerInfo F) :
    (updateOnRun policy bestNode job sinfo).jobInfo = Function.update sinfo.jobInfo job
      { sinfo.jobInfo job with isQueued := false, isRunning := true } := by
  obtain ⟨nodes, groups, equal⟩ := updateOnRun_eq policy bestNode job sinfo
  rw [equal]
  rfl

section

variable [Floating F] {policy : Policy} {answers : Answers} {sinfo : ServerInfo F} {job : JobRef}

theorem frames_considerJob :
    Frames policy [job] sinfo (considerJob policy answers sinfo job).2 := by
  intro other left
  have ne := fun same => left (mem_singleton.2 same)
  have flag : ∀ canNeverRun, (sinfo.flagged job canNeverRun).jobInfo other = sinfo.jobInfo other :=
    fun _ => Function.update_of_ne ne _ _
  refine considerJob_induction (motive := fun _ sinfo' => (sinfo.jobInfo other).Marks _
    (sinfo'.jobInfo other)) ?_ ?_ ?_
  · intro canNeverRun _ _
    rw [jobInfo_updateOnRun, Function.update_of_ne ne, flag]
    exact ⟨rfl, id, .inl⟩
  · intro canNeverRun _ _
    rw [flag]
    exact ⟨rfl, id, .inl⟩
  · intro _ marked _ marks _ _
    exact ⟨(marks.record other).rest, (marks.record other).stays,
      fun mark => ((marks.record other).fresh mark).imp_right (·.resolve_left ne)⟩

/-- A job that the server did not fail to run runs, or is marked. -/
theorem settled_considerJob : (considerJob policy answers sinfo job).1 ≠ .runFailed →
    ((considerJob policy answers sinfo job).2.jobInfo job).isRunning = true ∨
      ((considerJob policy answers sinfo job).2.jobInfo job).canNotRun = true := by
  refine considerJob_induction (motive := fun outcome sinfo' => outcome ≠ .runFailed →
    (sinfo'.jobInfo job).isRunning = true ∨ (sinfo'.jobInfo job).canNotRun = true) ?_ ?_ ?_
  · intro canNeverRun _ _ _
    rw [jobInfo_updateOnRun, Function.update_self]
    exact .inl rfl
  · exact fun _ _ _ ran => absurd rfl ran
  · exact fun _ _ _ _ marked _ _ => .inr marked

end

/-! ## The jobs that have been considered -/

/-- What `query_server` makes: the array of the server has the jobs of the queues, in any order; a
job that is not queued is marked, and one that is queued does not run. -/
structure Queried (sinfo : ServerInfo F) : Prop where
  all : sinfo.jobs.Perm (sinfo.queues.flatMap fun queue => (sinfo.queueInfo queue).jobs)
  nodup : sinfo.jobs.Nodup
  owned : ∀ queue ∈ sinfo.queues, ∀ job ∈ (sinfo.queueInfo queue).jobs,
    (sinfo.jobInfo job).queue = queue
  unqueued : ∀ job ∈ sinfo.jobs, (sinfo.jobInfo job).isQueued = false →
    (sinfo.jobInfo job).canNotRun = true
  queued : ∀ job ∈ sinfo.jobs, (sinfo.jobInfo job).isQueued = true →
    (sinfo.jobInfo job).isRunning = false

/-- The jobs that have been considered. -/
def Cycle.jobs (cycle : Cycle F) : List JobRef :=
  cycle.considered.map (·.job)

/-- The job need not be considered: it was not queued, or it was marked before the cycle, or it is
marked because of the strict order. -/
def Excused (policy : Policy) (sinfo : ServerInfo F) (cycle : Cycle F) (job : JobRef) : Prop :=
  (sinfo.jobInfo job).isQueued = false ∨ (sinfo.jobInfo job).canNotRun = true ∨
    policy.strictFifo = true ∧ (cycle.sinfo.jobInfo job).canNotRun = true

/-- Every job of the snapshot has been considered, or need not be. -/
def Covered (policy : Policy) (sinfo : ServerInfo F) (cycle : Cycle F) : Prop :=
  ∀ job ∈ sinfo.jobs, job ∈ cycle.jobs ∨ Excused policy sinfo cycle job

/-- What is known of the records of the jobs. -/
structure Tracked (policy : Policy) (sinfo : ServerInfo F) (cycle : Cycle F) : Prop where
  keeps : Keeps sinfo cycle.sinfo
  once : cycle.jobs.Nodup
  known : ∀ job ∈ cycle.jobs, job ∈ sinfo.jobs
  frames : Frames policy cycle.jobs sinfo cycle.sinfo
  settled : ∀ entry ∈ cycle.considered, entry.outcome ≠ .runFailed →
    (cycle.sinfo.jobInfo entry.job).isRunning = true ∨
      (cycle.sinfo.jobInfo entry.job).canNotRun = true

section

variable {policy : Policy} {sinfo : ServerInfo F} {cycle : Cycle F} {job : JobRef}

theorem Tracked.start (policy : Policy) (sinfo : ServerInfo F) :
    Tracked policy sinfo (.start policy sinfo) := by
  constructor
  · exact .refl sinfo
  · exact nodup_nil
  · intro job mem
    cases mem
  · exact fun _ _ => ⟨rfl, id, .inl⟩
  · intro entry mem
    cases mem

/-- A job that is marked without having been considered is excused. -/
theorem Tracked.excused (tracked : Tracked policy sinfo cycle) (left : job ∉ cycle.jobs)
    (marked : (cycle.sinfo.jobInfo job).canNotRun = true) : Excused policy sinfo cycle job := by
  rcases (tracked.frames job left).fresh marked with before | strict
  · exact .inr (.inl before)
  · exact .inr (.inr ⟨strict, marked⟩)

variable [Floating F] {agenda : List JobRef}

section

variable (policy : Policy) (answers : Answers) (cycle : Cycle F) (iterator : Iterator)
  (job : JobRef)

/-- The cycle after a job has been considered. -/
def Cycle.after : Cycle F :=
  ⟨(considerJob policy answers cycle.sinfo job).2, iterator, false,
    cycle.considered ++ [⟨job, (considerJob policy answers cycle.sinfo job).1⟩]⟩

@[simp]
theorem jobs_after : (cycle.after policy answers iterator job).jobs = cycle.jobs ++ [job] := by
  simp [Cycle.jobs, Cycle.after]

end

theorem Excused.after {other : JobRef} (excused : Excused policy sinfo cycle other)
    (answers : Answers) (iterator : Iterator) :
    Excused policy sinfo (cycle.after policy answers iterator job) other := by
  rcases excused with unqueued | before | ⟨strict, marked⟩
  · exact .inl unqueued
  · exact .inr (.inl before)
  · exact .inr (.inr ⟨strict,
      (keeps_considerJob policy answers cycle.sinfo job).marks other marked⟩)

theorem Tracked.after (tracked : Tracked policy sinfo cycle) (answers : Answers)
    (iterator : Iterator) (mem : job ∈ sinfo.jobs) (new : job ∉ cycle.jobs) :
    Tracked policy sinfo (cycle.after policy answers iterator job) := by
  have keeps := keeps_considerJob policy answers cycle.sinfo job
  have frames : Frames policy [job] cycle.sinfo (considerJob policy answers cycle.sinfo job).2 :=
    frames_considerJob
  constructor
  · exact tracked.keeps.trans keeps
  · rw [jobs_after]
    exact tracked.once.append (nodup_singleton job)
      (disjoint_singleton.2 new)
  · rw [jobs_after]
    exact forall_mem_append.2 ⟨tracked.known, forall_mem_singleton.2 mem⟩
  · rw [jobs_after]
    exact tracked.frames.trans frames
  · intro entry here ran
    rcases mem_append.1 here with before | last
    · have ne : entry.job ∉ [job] := by
        rw [mem_singleton]
        rintro rfl
        exact new (mem_map_of_mem before)
      rcases tracked.settled entry before ran with runs | marked
      · left
        change ((considerJob policy answers cycle.sinfo job).2.jobInfo entry.job).isRunning = true
        rw [(frames entry.job ne).rest]
        exact runs
      · exact .inr (keeps.marks entry.job marked)
    · rw [mem_singleton.1 last] at ran ⊢
      exact settled_considerJob ran

/-! ## A list of the jobs that are still to come -/

/-- The jobs on the agenda have not been considered; all others have been, or are excused. -/
structure OnAgenda (policy : Policy) (sinfo : ServerInfo F) (cycle : Cycle F)
    (agenda : List JobRef) : Prop where
  tracked : Tracked policy sinfo cycle
  nodup : agenda.Nodup
  known : ∀ job ∈ agenda, job ∈ sinfo.jobs
  ahead : ∀ job ∈ agenda, job ∉ cycle.jobs
  behind : ∀ job ∈ sinfo.jobs, job ∈ agenda ∨ job ∈ cycle.jobs ∨ Excused policy sinfo cycle job

omit [Floating F] in
theorem OnAgenda.start (queried : Queried sinfo) (all : sinfo.jobs.Perm agenda) :
    OnAgenda policy sinfo (.start policy sinfo) agenda where
  tracked := .start policy sinfo
  nodup := all.nodup_iff.1 queried.nodup
  known _ mem := all.mem_iff.2 mem
  ahead _ _ := not_mem_nil
  behind _ mem := .inl (all.mem_iff.1 mem)

/-- The next job that is not excused is considered. -/
theorem OnAgenda.after {skipped rest : List JobRef}
    (on : OnAgenda policy sinfo cycle (skipped ++ job :: rest))
    (excused : ∀ other ∈ skipped, Excused policy sinfo cycle other) (answers : Answers)
    (iterator : Iterator) :
    OnAgenda policy sinfo (cycle.after policy answers iterator job) rest := by
  have apart := nodup_append.1 on.nodup
  have here : job ∈ skipped ++ job :: rest := mem_append_right _ mem_cons_self
  constructor
  · exact on.tracked.after answers iterator (on.known job here) (on.ahead job here)
  · exact (nodup_cons.1 apart.2.1).2
  · exact fun other mem => on.known other (mem_append_right _ (mem_cons_of_mem _ mem))
  · intro other mem
    rw [jobs_after, mem_append, mem_singleton, not_or]
    refine ⟨on.ahead other (mem_append_right _ (mem_cons_of_mem _ mem)), ?_⟩
    rintro rfl
    exact (nodup_cons.1 apart.2.1).1 mem
  · intro other mem
    rw [jobs_after, mem_append, mem_singleton]
    rcases on.behind other mem with listed | considered | excuse
    · rcases mem_append.1 listed with skip | later
      · exact .inr (.inr ((excused other skip).after answers iterator))
      · rcases mem_cons.1 later with rfl | later
        · exact .inr (.inl (.inr rfl))
        · exact .inl later
    · exact .inr (.inl (.inl considered))
    · exact .inr (.inr (excuse.after answers iterator))

omit [Floating F] in
/-- If all jobs on the agenda are excused, nothing is left to consider. -/
theorem OnAgenda.covered (on : OnAgenda policy sinfo cycle agenda)
    (excused : ∀ job ∈ agenda, Excused policy sinfo cycle job) : Covered policy sinfo cycle := by
  intro job mem
  rcases on.behind job mem with listed | covered
  · exact .inr (excused job listed)
  · exact covered

end

/-! ## What can go wrong -/

section

variable [Floating F] (sinfo : ServerInfo F)

/-- The jobs of the queue at an index. -/
def jobsAt (index : Nat) : List JobRef :=
  (sinfo.queues[index]?).elim [] fun queue => (sinfo.queueInfo queue).jobs

/-- The job that the round robin chooses where it finds one. -/
def pick (policy : Policy) (sinfo : ServerInfo F) (jobs : List JobRef) (job : JobRef) :
    Option JobRef :=
  if policy.fairShare then extractFairshare sinfo jobs
  else if (sinfo.jobInfo job).canNotRun = false then some job
  else none

/-- What the round robin chooses when it comes to a queue for the `k`-th time over all queues. -/
def visit (policy : Policy) (sinfo : ServerInfo F) (k : Nat) : Option JobRef :=
  let jobs := jobsAt sinfo (k % sinfo.queues.length)
  (jobs[k / sinfo.queues.length]?).bind (pick policy sinfo jobs)

/-- The jobs are chosen by `extract_fairshare`. -/
def Policy.byShares (policy : Policy) : Bool :=
  policy.fairShare && (policy.roundRobin || !policy.strictFifo)

/-- A round in which the cycle does not go astray. -/
structure Steady (policy : Policy) (cycle : Cycle F) (answers : Answers) : Prop where
  /-- If the round robin finds no job in a turn over all queues, there is none behind. -/
  turn : policy.roundRobin = true → policy.fairShare = false →
    let first := (cycle.iterator.visited cycle.sinfo.queues.length).toNat
    (∀ k, first ≤ k → k < first + cycle.sinfo.queues.length →
      visit policy cycle.sinfo k = none) →
    ∀ k, first ≤ k → visit policy cycle.sinfo k = none
  /-- A job that the server failed to run is not the one with the best share. -/
  fresh : policy.byShares = true → ∀ entry ∈ cycle.considered, entry.outcome = .runFailed →
    (nextJob policy cycle.sinfo cycle.iterator).2 ≠ some entry.job
  /-- The share of a job that may be chosen is above the value that the search begins with. -/
  shares : policy.byShares = true → ∀ job ∈ cycle.sinfo.jobs,
    (cycle.sinfo.jobInfo job).isRunning = false → (cycle.sinfo.jobInfo job).canNotRun = false →
    Floating.lt (Floating.ofInt (-1)) (share cycle.sinfo job) = true
  /-- If the queues are taken one after the other, the job with the best share is refused only
  if the cursor has come to its place. -/
  inPlace : policy.byShares = true → policy.roundRobin = false → policy.byQueue = true →
    ∀ job ∈ (nextJob policy cycle.sinfo cycle.iterator).2,
      (isOkToRunJob policy answers.query cycle.sinfo job).1 ≠ none →
      (cycle.sinfo.queueOf job).jobs.idxOf job ≤
        (nextJob policy cycle.sinfo cycle.iterator).1.lastJob

theorem Steady.not_failed {policy : Policy} {cycle : Cycle F} {answers : Answers}
    (steady : Steady policy cycle answers) (byShares : policy.byShares = true)
    {iterator : Iterator} {job : JobRef}
    (next : nextJob policy cycle.sinfo cycle.iterator = (iterator, some job)) :
    ∀ entry ∈ cycle.considered, entry.outcome = .runFailed → entry.job ≠ job := by
  intro entry mem failed same
  apply steady.fresh byShares entry mem failed
  rw [next, same]

end

/-! ## Cycles that end -/

section

variable [Floating F] {policy : Policy} {sinfo : ServerInfo F} {answers : Nat → Answers}
  {answer : Answers} {cycle : Cycle F} {iterator : Iterator}

theorem round_ended (answers : Answers) (ended : cycle.ended = true) :
    (cycle.round policy answers).ended = true := by
  unfold Cycle.round
  rw [if_pos ended]
  exact ended

theorem round_none (running : cycle.ended = false)
    (none_ : nextJob policy cycle.sinfo cycle.iterator = (iterator, none)) :
    cycle.round policy answer = { cycle with iterator := iterator, ended := true } := by
  unfold Cycle.round
  rw [running, none_]
  rfl

theorem round_some (running : cycle.ended = false) {job : JobRef}
    (some_ : nextJob policy cycle.sinfo cycle.iterator = (iterator, some job)) :
    cycle.round policy answer = cycle.after policy answer iterator job := by
  unfold Cycle.round
  rw [running, some_]
  rfl

section

variable (policy : Policy) (sinfo : ServerInfo F) (answers : Nat → Answers)

/-- The cycle before its `n`-th round. -/
def cycleAt (n : Nat) : Cycle F :=
  stateAt (Cycle.round policy) (.start policy sinfo) answers n

/-- All rounds of the cycle are steady. -/
def AllSteady : Prop :=
  ∀ n, (cycleAt policy sinfo answers n).ended = false →
    Steady policy (cycleAt policy sinfo answers n) (answers n)

/-- The cycle ends; no job has then been considered twice, and each job has been considered or
need not be. -/
def EndsCovered : Prop :=
  ∃ n, (cycleAt policy sinfo answers n).ended = true ∧
    (cycleAt policy sinfo answers n).jobs.Nodup ∧
    Covered policy sinfo (cycleAt policy sinfo answers n)

end

/-- An invariant of steady rounds that leads to coverage is all that a cycle needs: it ends, as
no job is considered twice. -/
theorem ends_covered (Invariant : Cycle F → Prop)
    (initial : Invariant (.start policy sinfo))
    (tracked : ∀ cycle, Invariant cycle → Tracked policy sinfo cycle)
    (further : ∀ cycle answer, Invariant cycle → Steady policy cycle answer → ∀ iterator job,
      nextJob policy cycle.sinfo cycle.iterator = (iterator, some job) →
        Invariant (cycle.after policy answer iterator job))
    (last : ∀ cycle answer, Invariant cycle → Steady policy cycle answer → ∀ iterator,
      nextJob policy cycle.sinfo cycle.iterator = (iterator, none) →
        Covered policy sinfo cycle)
    (steady : AllSteady policy sinfo answers) : EndsCovered policy sinfo answers := by
  by_contra endless
  -- as long as the cycle has not ended, a job has been considered in each round
  have goesOn : ∀ n, (cycleAt policy sinfo answers n).ended = false ∧
      Invariant (cycleAt policy sinfo answers n) ∧
      (cycleAt policy sinfo answers n).jobs.length = n := by
    intro n
    induction n with
    | zero => exact ⟨rfl, initial, rfl⟩
    | succ n ih =>
      rcases ih with ⟨running, invariant, length⟩
      have steadyHere := steady n running
      have round : cycleAt policy sinfo answers (n + 1) =
        (cycleAt policy sinfo answers n).round policy (answers n) := rfl
      cases next : nextJob policy (cycleAt policy sinfo answers n).sinfo
          (cycleAt policy sinfo answers n).iterator with
      | mk iterator returned =>
        cases returned with
        | none =>
          have covered := last _ _ invariant steadyHere iterator next
          refine absurd ⟨n + 1, ?_⟩ endless
          rw [round, round_none running next]
          exact ⟨rfl, (tracked _ invariant).once, covered⟩
        | some job =>
          rw [round, round_some running next]
          refine ⟨rfl, further _ _ invariant steadyHere iterator job next, ?_⟩
          rw [jobs_after, length_append, length, length_singleton]
  rcases goesOn (sinfo.jobs.length + 1) with ⟨-, invariant, length⟩
  have few := (tracked _ invariant).once.length_le_of_subset (tracked _ invariant).known
  rw [length] at few
  exact absurd few (Nat.not_succ_le_self _)

end

end Torque.Scheduler
