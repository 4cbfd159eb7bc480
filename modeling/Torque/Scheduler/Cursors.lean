import Torque.Scheduler.Coverage

/-!
# Going through the jobs in their order

Without fair share `next_job` goes through an array, with a cursor that it remembers: through the
array of the server, or through those of the queues one after the other.  The jobs behind the
cursor are the agenda of the cycle.  A job that is passed over is excused, and if there is no
further job to return all jobs on the agenda are.
-/

namespace Torque.Scheduler

open Torque.Numa List

variable {F : Type}

/-! ## One array -/

section

/-- An entry of what is left of a list, and what is left behind it. -/
theorem drop_behind {α : Type} {list skipped rest : List α} {entry : α} {n : Nat}
    (left : list.drop n = skipped ++ entry :: rest) :
    list[n + skipped.length]? = some entry ∧ list.drop (n + skipped.length + 1) = rest := by
  constructor
  · rw [← getElem?_drop, left, getElem?_append_right le_rfl, Nat.sub_self]
    rfl
  · rw [Nat.add_assoc, ← drop_drop, left, ← drop_drop, drop_left, drop_one, tail_cons]

variable {eligible : JobInfo F → Bool} {sinfo : ServerInfo F} {jobs : List JobRef} {position : Int}

theorem nextEligible_none (found : (nextEligible eligible sinfo jobs position).2 = none) :
    ∀ job ∈ jobs, eligible (sinfo.jobInfo job) = false := by
  induction jobs generalizing position with
  | nil => exact forall_mem_nil _
  | cons first jobs ih =>
    unfold nextEligible at found
    split at found
    · cases found
    · next notOk => exact forall_mem_cons.2 ⟨Bool.eq_false_iff.2 notOk, ih found⟩

end

section

variable {policy : Policy} {sinfo : ServerInfo F} {cycle : Cycle F} {agenda : List JobRef}
  {job : JobRef}

variable (on : OnAgenda policy sinfo cycle agenda) (mem : job ∈ agenda)
include on mem

/-- A job on the agenda that is not queued was not queued at first. -/
theorem OnAgenda.excused_of_unqueued (unqueued : (cycle.sinfo.jobInfo job).isQueued = false) :
    Excused policy sinfo cycle job := by
  rw [(on.tracked.frames job (on.ahead job mem)).rest] at unqueued
  exact .inl unqueued

theorem OnAgenda.excused_of_marked (marked : (!(cycle.sinfo.jobInfo job).canNotRun) = false) :
    Excused policy sinfo cycle job :=
  on.tracked.excused (on.ahead job mem) (by simpa using marked)

end

section

variable [Floating F] {policy : Policy} {sinfo : ServerInfo F} {cycle : Cycle F}

/-- What is left of the array of the server. -/
def serverAgenda (sinfo : ServerInfo F) (iterator : Iterator) : List JobRef :=
  sinfo.jobs.drop (iterator.lastJob + 1).toNat

/-- The cursor goes on in the array of the server. -/
theorem OnAgenda.after_nextEligible {eligible : JobInfo F → Bool}
    (on : OnAgenda policy sinfo cycle (serverAgenda sinfo cycle.iterator))
    (standing : -1 ≤ cycle.iterator.lastJob)
    (excuses : ∀ job ∈ serverAgenda sinfo cycle.iterator,
      eligible (cycle.sinfo.jobInfo job) = false → Excused policy sinfo cycle job)
    {position : Int} {job : JobRef}
    (found : nextEligible eligible cycle.sinfo (serverAgenda sinfo cycle.iterator)
      (cycle.iterator.lastJob + 1) = (position, some job)) (answers : Answers) :
    let iterator := { cycle.iterator with lastJob := position }
    OnAgenda policy sinfo (cycle.after policy answers iterator job)
      (serverAgenda sinfo iterator) ∧ -1 ≤ position := by
  intro iterator
  rcases nextEligible_some found with ⟨skipped, rest, agenda, ineligible, -, rfl⟩
  have remaining : serverAgenda sinfo iterator = rest := by
    have further : (cycle.iterator.lastJob + 1 + skipped.length + 1).toNat =
        (cycle.iterator.lastJob + 1).toNat + skipped.length + 1 := by omega
    change sinfo.jobs.drop (cycle.iterator.lastJob + 1 + skipped.length + 1).toNat = rest
    rw [further]
    exact (drop_behind agenda).2
  rw [remaining]
  rw [agenda] at on excuses
  refine ⟨on.after (fun other mem => ?_) answers iterator, by omega⟩
  exact excuses other (mem_append_left _ mem) (ineligible other mem)

end

/-! ## The arrays of the queues, one after the other -/

section

/-- What is left of the arrays of the queues, from a position of the first one on. -/
def queueAgenda (sinfo : ServerInfo F) : List QueueRef → Nat → List JobRef
  | [], _ => []
  | queue :: queues, position =>
    (sinfo.queueInfo queue).jobs.drop position ++
      queues.flatMap fun queue => (sinfo.queueInfo queue).jobs

theorem queueAgenda_zero (sinfo : ServerInfo F) (queues : List QueueRef) :
    queueAgenda sinfo queues 0 = queues.flatMap fun queue => (sinfo.queueInfo queue).jobs := by
  cases queues <;> rfl

variable {sinfo : ServerInfo F} {queues : List QueueRef} {lastJob lastQueue : Int}
  {queue : QueueRef}

/-- The loop stops at the first job that is not marked. -/
theorem byQueueLoop_some {lastQueue' lastJob' : Int} (standing : 0 ≤ lastJob)
    (found : byQueueLoop sinfo queues lastQueue lastJob = (lastQueue', lastJob', some queue)) :
    ∃ before after skipped job, queues = before ++ queue :: after ∧
      lastQueue' = lastQueue + before.length ∧ 0 ≤ lastJob' ∧
      (sinfo.queueInfo queue).jobs[lastJob'.toNat]? = some job ∧
      (sinfo.jobInfo job).canNotRun = false ∧
      (∀ other ∈ skipped, (sinfo.jobInfo other).canNotRun = true) ∧
      queueAgenda sinfo queues lastJob.toNat =
        skipped ++ job :: queueAgenda sinfo (queue :: after) (lastJob'.toNat + 1) := by
  induction queues generalizing lastQueue lastJob with
  | nil => cases found
  | cons first queues ih =>
    unfold byQueueLoop at found
    split at found
    · next position job eligible =>
      cases found
      rcases nextEligible_some eligible with
        ⟨skipped, rest, remaining, marked, unmarked, rfl⟩
      have further : (lastJob + skipped.length).toNat = lastJob.toNat + skipped.length := by
        omega
      obtain ⟨at_, left⟩ := drop_behind remaining
      refine ⟨[], queues, skipped, job, rfl, by simp, by omega, by rw [further]; exact at_,
        by simpa using unmarked, fun other mem => by simpa using marked other mem, ?_⟩
      rw [further, queueAgenda, queueAgenda, left, remaining, append_assoc]
      rfl
    · next position eligible =>
      have marked := nextEligible_none (congrArg Prod.snd eligible)
      rcases ih le_rfl found with ⟨before, after, skipped, job, rfl, rfl, standing', at_,
        unmarked, marked', agenda⟩
      refine ⟨first :: before, after,
        (sinfo.queueInfo first).jobs.drop lastJob.toNat ++ skipped, job, rfl,
        by rw [length_cons]; omega, standing', at_, unmarked, ?_, ?_⟩
      · exact forall_mem_append.2 ⟨fun other here => by simpa using marked other here, marked'⟩
      · rw [queueAgenda, ← queueAgenda_zero, append_assoc]
        exact congrArg _ agenda

theorem byQueueLoop_mem (found : (byQueueLoop sinfo queues lastQueue lastJob).2.2 = some queue) :
    queue ∈ queues := by
  induction queues generalizing lastQueue lastJob with
  | nil => cases found
  | cons first queues ih =>
    unfold byQueueLoop at found
    split at found
    · cases found
      exact mem_cons_self
    · exact mem_cons_of_mem _ (ih found)

theorem byQueueLoop_none (found : (byQueueLoop sinfo queues lastQueue lastJob).2.2 = none) :
    ∀ job ∈ queueAgenda sinfo queues lastJob.toNat, (sinfo.jobInfo job).canNotRun = true := by
  induction queues generalizing lastQueue lastJob with
  | nil => exact forall_mem_nil _
  | cons first queues ih =>
    unfold byQueueLoop at found
    split at found
    · cases found
    · next position eligible =>
      have marked := nextEligible_none (congrArg Prod.snd eligible)
      refine forall_mem_append.2 ⟨fun job here => by simpa using marked job here, ?_⟩
      rw [← queueAgenda_zero]
      exact ih found

theorem queueAgenda_congr {sinfo' : ServerInfo F} (keeps : Keeps sinfo sinfo')
    (queues : List QueueRef) (position : Nat) :
    queueAgenda sinfo' queues position = queueAgenda sinfo queues position := by
  cases queues with
  | nil => rfl
  | cons queue queues => simp only [queueAgenda, keeps.jobs]

variable [Floating F] {policy : Policy} {cycle : Cycle F}

/-- What is left of the arrays of the queues when `next_job` stands in one of them. -/
def byQueueAgenda (sinfo : ServerInfo F) (iterator : Iterator) : List JobRef :=
  queueAgenda sinfo (sinfo.queues.drop iterator.lastQueue.toNat) (iterator.lastJob + 1).toNat

/-- The cursor stands in the arrays. -/
structure InQueues (iterator : Iterator) : Prop where
  lastQueue : 0 ≤ iterator.lastQueue
  lastJob : -1 ≤ iterator.lastJob

theorem InQueues.next_nonneg {iterator : Iterator} (standing : InQueues iterator) :
    0 ≤ iterator.lastJob + 1 := by
  have := standing.lastJob
  omega

/-- The cursor goes on in the arrays of the queues. -/
theorem OnAgenda.after_byQueueLoop
    (on : OnAgenda policy sinfo cycle (byQueueAgenda sinfo cycle.iterator))
    (standing : InQueues cycle.iterator)
    (found : byQueueLoop cycle.sinfo (cycle.sinfo.queues.drop cycle.iterator.lastQueue.toNat)
      cycle.iterator.lastQueue (cycle.iterator.lastJob + 1) = (lastQueue, lastJob, some queue))
    (answers : Answers) :
    let iterator := { cycle.iterator with lastQueue := lastQueue, lastJob := lastJob }
    InQueues iterator ∧ ∃ job, (cycle.sinfo.queueInfo queue).jobs[lastJob.toNat]? = some job ∧
      OnAgenda policy sinfo (cycle.after policy answers iterator job)
        (byQueueAgenda sinfo iterator) := by
  intro iterator
  have keeps := on.tracked.keeps
  have queueFirst := standing.lastQueue
  rcases byQueueLoop_some standing.next_nonneg found with
    ⟨before, after, skipped, job, queues, rfl, lastJob', at_, -, marked, agenda⟩
  rw [queueAgenda_congr keeps, queueAgenda_congr keeps, keeps.queues] at agenda
  rw [keeps.queues] at queues
  have remaining : byQueueAgenda sinfo iterator =
      queueAgenda sinfo (queue :: after) (lastJob.toNat + 1) := by
    have further : (cycle.iterator.lastQueue + before.length).toNat =
        cycle.iterator.lastQueue.toNat + before.length := by omega
    have position : (lastJob + 1).toNat = lastJob.toNat + 1 := by omega
    change queueAgenda sinfo
      (sinfo.queues.drop (cycle.iterator.lastQueue + before.length).toNat) (lastJob + 1).toNat = _
    rw [further, position, ← drop_drop, queues, drop_left]
  have split : byQueueAgenda sinfo cycle.iterator =
      skipped ++ job :: byQueueAgenda sinfo iterator := by
    rw [remaining]
    exact agenda
  rw [split] at on
  refine ⟨⟨by dsimp only [iterator]; omega, by dsimp only [iterator]; omega⟩, job, at_,
    on.after (fun other mem => ?_) answers iterator⟩
  exact on.tracked.excused (on.ahead other (mem_append_left _ mem)) (marked other mem)

end

end Torque.Scheduler
