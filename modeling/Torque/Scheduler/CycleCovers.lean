import Torque.Scheduler.Modes
import Torque.Scheduler.StrictFifo

/-!
# Every steady cycle ends and considers each job once

The modes of `next_job` together: in every policy a cycle whose rounds are all steady ends, has
considered no job twice, and has left out only jobs that need not be considered.

Whatever the server answers, no job is started twice.  With fair share a cycle may go on for ever:
a job that the server fails to run is chosen again.
-/

namespace Torque.Scheduler

open Torque.Numa Torque.Transition

variable {F : Type} [Floating F] {policy : Policy} {sinfo : ServerInfo F} {cycle : Cycle F}

/-! ## By positions -/

section

variable {eligible : JobInfo F → Bool} {answers : Nat → Answers}

/-- A cycle that goes through the array of the server. -/
theorem Walks.ends (walks : Walks policy sinfo eligible) (queried : Queried sinfo)
    (steady : AllSteady policy sinfo answers) : EndsCovered policy sinfo answers := by
  have proper := walks.proper queried
  refine ends_covered (Walking policy sinfo) proper.start (fun _ walking => walking.on.tracked)
    (fun cycle answer walking _ iterator job next =>
      proper.after cycle iterator job answer walking next) ?_ steady
  intro cycle answer walking _ iterator next
  rw [walks.next, serverAgenda_congr walking.on.tracked.keeps] at next
  have none_ := nextEligible_none (Prod.mk.inj next).2
  exact walking.on.covered fun job mem => walks.excuses cycle walking job mem (none_ job mem)

end

variable {answers : Nat → Answers}

section

variable (queried : Queried sinfo) (single : policy.roundRobin = false)
  (unstrict : policy.strictFifo = false)
include queried single unstrict

/-- A cycle that takes one queue after the other. -/
theorem passing_ends (byQueue : policy.byQueue = true) (plain : policy.fairShare = false)
    (steady : AllSteady policy sinfo answers) : EndsCovered policy sinfo answers := by
  have proper := proper_passing queried single unstrict byQueue plain
  refine ends_covered (Passing policy sinfo) proper.start (fun _ passing => passing.on.tracked)
    (fun cycle answer passing _ iterator job next =>
      proper.after cycle iterator job answer passing next) ?_ steady
  intro cycle answer passing _ iterator next
  have keeps := passing.on.tracked.keeps
  rw [nextJob_of_byQueue single unstrict byQueue] at next
  have missing : (byQueueLoop cycle.sinfo
      (cycle.sinfo.queues.drop cycle.iterator.lastQueue.toNat) cycle.iterator.lastQueue
      (cycle.iterator.lastJob + 1)).2.2 = none := by
    by_contra found
    rcases Option.ne_none_iff_exists'.1 found with ⟨queue, found⟩
    rcases byQueueLoop_some passing.standing.next_nonneg (Prod.ext rfl (Prod.ext rfl found)) with
      ⟨-, -, -, job, -, -, -, at_, -⟩
    have returned := (Prod.mk.inj next).2
    rw [found, Option.bind_some, if_neg (Bool.eq_false_iff.1 plain)] at returned
    cases returned.symm.trans at_
  have marked := byQueueLoop_none missing
  rw [queueAgenda_congr keeps, keeps.queues] at marked
  exact passing.on.covered fun job mem =>
    passing.on.tracked.excused (passing.on.ahead job mem) (marked job mem)

/-! ## By shares -/

/-- A cycle that takes one queue after the other, and chooses the best job of it. -/
theorem byTurns_ends (byQueue : policy.byQueue = true) (fair : policy.fairShare = true)
    (steady : AllSteady policy sinfo answers) : EndsCovered policy sinfo answers := by
  have start := iterator_start single sinfo
  have byShares : policy.byShares = true := by simp [Policy.byShares, fair, unstrict]
  refine ends_covered (ByTurns policy sinfo) ⟨?_, ?_, ?_, ?_⟩ (fun _ byTurns => byTurns.tracked)
    ?_ ?_ steady
  · exact .start policy sinfo
  · rw [start]
    exact ⟨le_rfl, le_rfl⟩
  · rw [start]
    exact List.forall_mem_nil _
  · rw [start]
    exact level_start policy sinfo sinfo.queues
  · intro cycle answer byTurns steadyHere iterator job next
    have keeps := byTurns.tracked.keeps
    have fresh := steadyHere.not_failed byShares next
    have inPlace := steadyHere.inPlace byShares single byQueue job (by rw [next]; rfl)
    rw [next] at inPlace
    rw [nextJob_of_byQueue single unstrict byQueue, keeps.queues] at next
    rcases Prod.mk.inj next with ⟨rfl, returned⟩
    rcases Option.bind_eq_some_iff.1 returned with ⟨queue, found, extracted⟩
    rw [if_pos fair, keeps.jobs] at extracted
    rcases byTurns.tracked.isWaiting_of_extracted extracted fresh with ⟨mem, waiting⟩
    exact byTurns.after queried unstrict (Prod.ext rfl (Prod.ext rfl found)) mem waiting inPlace
  · intro cycle answer byTurns steadyHere iterator next
    have keeps := byTurns.tracked.keeps
    rw [nextJob_of_byQueue single unstrict byQueue, keeps.queues] at next
    have returned := (Prod.mk.inj next).2
    cases found : (byQueueLoop cycle.sinfo (sinfo.queues.drop cycle.iterator.lastQueue.toNat)
        cycle.iterator.lastQueue (cycle.iterator.lastJob + 1)).2.2 with
    | none => exact byTurns.covered queried (byTurns.level.byQueueLoop_none keeps found)
    | some queue =>
      -- a job of the queue waits, and would have been chosen
      rw [found, Option.bind_some, if_pos fair, keeps.jobs] at returned
      rcases byTurns.level.byQueueLoop_some keeps byTurns.standing.next_nonneg
        (Prod.ext rfl (Prod.ext rfl found)) with ⟨before, after, split, -, -, -, count, -⟩
      have idle := byTurns.tracked.not_waiting_of_none queried (queried.apart split).2.2.1
        (steadyHere.shares byShares) returned
      rw [List.countP_eq_zero.2 fun job mem => Bool.eq_false_iff.1 (idle job mem)] at count
      cases count

/-- A cycle that chooses the best job of all. -/
theorem sharing_ends (one : policy.byQueue = false) (fair : policy.fairShare = true)
    (steady : AllSteady policy sinfo answers) : EndsCovered policy sinfo answers := by
  have byShares : policy.byShares = true := by simp [Policy.byShares, fair, unstrict]
  refine ends_covered (Tracked policy sinfo) (.start policy sinfo) (fun _ tracked => tracked)
    ?_ ?_ steady
  · intro cycle answer tracked steadyHere iterator job next
    have fresh := steadyHere.not_failed byShares next
    rw [nextJob_of_fair single unstrict one fair, tracked.keeps.order] at next
    rcases tracked.isWaiting_of_extracted (Prod.mk.inj next).2 fresh with ⟨mem, waiting⟩
    exact tracked.after answer iterator mem (isWaiting_iff.1 waiting).1
  · intro cycle answer tracked steadyHere iterator next
    rw [nextJob_of_fair single unstrict one fair, tracked.keeps.order] at next
    exact tracked.covered (tracked.not_waiting_of_none queried (fun _ mem => mem)
      (steadyHere.shares byShares) (Prod.mk.inj next).2)

end

/-! ## All modes -/

/-- No job is considered once it has been started, or if it ran in the snapshot; and the jobs that
run are those that did and those that were started. -/
structure StartsOnce (sinfo : ServerInfo F) (cycle : Cycle F) : Prop where
  once : cycle.considered.Pairwise fun first later => first.outcome = .started →
    later.job ≠ first.job
  waited : ∀ entry ∈ cycle.considered, entry.job ∈ sinfo.jobs ∧
    (sinfo.jobInfo entry.job).isRunning = false
  runs : ∀ job, (cycle.sinfo.jobInfo job).isRunning = true ↔
    (sinfo.jobInfo job).isRunning = true ∨ ⟨job, .started⟩ ∈ cycle.considered

section

variable {answers : Answers} {iterator : Iterator} {job : JobRef}

theorem isRunning_considerJob (other : JobRef) :
    ((considerJob policy answers sinfo job).2.jobInfo other).isRunning = true ↔
      (sinfo.jobInfo other).isRunning = true ∨
        (considerJob policy answers sinfo job).1 = .started ∧ other = job := by
  have flag : ∀ canNeverRun, ((sinfo.flagged job canNeverRun).jobInfo other).isRunning =
      (sinfo.jobInfo other).isRunning := fun _ => field_update JobInfo.isRunning (by rfl) other
  refine considerJob_induction (motive := fun outcome sinfo' =>
    (sinfo'.jobInfo other).isRunning = true ↔
      (sinfo.jobInfo other).isRunning = true ∨ outcome = .started ∧ other = job) ?_ ?_ ?_
  · intro canNeverRun _ _
    rw [jobInfo_updateOnRun]
    by_cases here : other = job
    · simp [here]
    · rw [Function.update_of_ne here, flag]
      simp [here]
  · intro canNeverRun _ _
    simp [flag]
  · intro _ marked _ marks _ _
    rw [(marks.record other).rest]
    simp

theorem StartsOnce.after (starts : StartsOnce sinfo cycle) (mem : job ∈ sinfo.jobs)
    (idle : (cycle.sinfo.jobInfo job).isRunning = false) :
    StartsOnce sinfo (cycle.after policy answers iterator job) := by
  have fresh := (not_congr (starts.runs job)).1 (Bool.eq_false_iff.1 idle)
  rw [not_or, Bool.not_eq_true] at fresh
  constructor
  · refine List.pairwise_append.2 ⟨starts.once, List.pairwise_singleton _ _, ?_⟩
    rintro ⟨first, outcome⟩ before later last rfl
    obtain rfl := List.mem_singleton.1 last
    rintro rfl
    exact fresh.2 before
  · exact List.forall_mem_append.2 ⟨starts.waited, List.forall_mem_singleton.2 ⟨mem, fresh.1⟩⟩
  · intro other
    refine (isRunning_considerJob other).trans ?_
    rw [Cycle.after, List.mem_append, List.mem_singleton, Considered.mk.injEq, starts.runs,
      or_assoc, and_comm, @eq_comm _ Outcome.started]

end

/-- Whatever the policy and the answers, no job is started twice, or that runs already. -/
theorem started_once (policy : Policy) (queried : Queried sinfo) (answers : List Answers) :
    StartsOnce sinfo (run (Cycle.round policy) (.start policy sinfo) answers) := by
  obtain ⟨Invariant, proper⟩ := exists_proper policy queried
  refine (run_invariant
    (fun cycle => (cycle.ended = true ∨ Invariant cycle) ∧ StartsOnce sinfo cycle)
    ⟨.inr proper.start, .nil, nofun, fun _ => (or_iff_left List.not_mem_nil).symm⟩ ?_ answers).2
  rintro cycle answer ⟨state, starts⟩
  cases ended : cycle.ended with
  | true =>
    rw [Cycle.round, if_pos ended]
    exact ⟨state, starts⟩
  | false =>
    have holds := state.resolve_left (Bool.eq_false_iff.1 ended)
    rcases next : nextJob policy cycle.sinfo cycle.iterator with ⟨iterator, _ | job⟩
    · rw [round_none ended next]
      exact ⟨.inl rfl, starts.once, starts.waited, starts.runs⟩
    · rw [round_some ended next]
      obtain ⟨mem, idle⟩ := proper.idle cycle iterator job holds next
      exact ⟨.inr (proper.after cycle iterator job answer holds next), starts.after mem idle⟩

section

variable {Invariant : Cycle F → Prop} (proper : Proper policy sinfo Invariant)
  (tracked : ∀ cycle, Invariant cycle → Tracked policy sinfo cycle) (answers : List Answers)
include proper tracked

/-- If no job is considered twice, each round considers one job more or ends the cycle. -/
theorem Proper.goesOn :
    let cycle := run (Cycle.round policy) (.start policy sinfo) answers
    cycle.ended = true ∧ cycle.jobs.Nodup ∨
      cycle.ended = false ∧ Invariant cycle ∧ cycle.jobs.length = answers.length := by
  induction answers using List.reverseRecOn with
  | nil => exact .inr ⟨rfl, proper.start, rfl⟩
  | append_singleton answers answer ih =>
    rw [run_append, run_cons, run_nil]
    generalize run (Cycle.round policy) (.start policy sinfo) answers = cycle at ih ⊢
    rcases ih with past | ⟨running, holds, length⟩
    · rw [Cycle.round, if_pos past.1]
      exact .inl past
    · rcases next : nextJob policy cycle.sinfo cycle.iterator with ⟨iterator, _ | job⟩
      · rw [round_none running next]
        exact .inl ⟨rfl, (tracked cycle holds).once⟩
      · rw [round_some running next]
        exact .inr ⟨rfl, proper.after cycle iterator job answer holds next, by simp [length]⟩

theorem Proper.ends (long : sinfo.jobs.length < answers.length) :
    let cycle := run (Cycle.round policy) (.start policy sinfo) answers
    cycle.ended = true ∧ cycle.jobs.Nodup := by
  refine (proper.goesOn tracked answers).resolve_right ?_
  rintro ⟨-, holds, length⟩
  have most := (tracked _ holds).once.length_le_of_subset (tracked _ holds).known
  omega

end

/-- Where jobs are not chosen by their shares, every cycle ends, and has considered no job twice. -/
theorem positional_cycle_ends (policy : Policy) (queried : Queried sinfo)
    (byPosition : policy.byShares = false) (answers : List Answers)
    (long : sinfo.jobs.length < answers.length) :
    let cycle := run (Cycle.round policy) (.start policy sinfo) answers
    cycle.ended = true ∧ cycle.jobs.Nodup := by
  unfold Policy.byShares at byPosition
  cases roundRobin : policy.roundRobin with
  | true =>
    have plain : policy.fairShare = false := by simpa [roundRobin] using byPosition
    exact (proper_visiting queried roundRobin plain).ends (fun _ ⟨_, _, on⟩ => on.tracked) answers
      long
  | false =>
    cases strict : policy.strictFifo with
    | true =>
      exact ((walks_of_strict roundRobin strict).proper queried).ends
        (fun _ walking => walking.on.tracked) answers long
    | false =>
      have plain : policy.fairShare = false := by simpa [strict] using byPosition
      cases byQueue : policy.byQueue with
      | true =>
        exact (proper_passing queried roundRobin strict byQueue plain).ends
          (fun _ passing => passing.on.tracked) answers long
      | false =>
        exact ((walks_of_plain roundRobin strict byQueue plain).proper queried).ends
          (fun _ walking => walking.on.tracked) answers long

/-! ## A server that starts all jobs, and one that starts none -/

/-- Only fair share, over all jobs of the server. -/
def fairPolicy : Policy :=
  ⟨false, false, false, true, false, false, false, 0, none, ⟨0, 0⟩⟩

theorem queried_twoJobs (mem : Int) : Queried (twoJobs mem).sinfo := by
  constructor
  · exact List.Perm.refl _
  · exact (by decide : [0, 1].Nodup)
  · exact fun queue _ job here => (twoJobs mem).owned queue job here
  · intro job _ unqueued
    cases unqueued
  · exact fun _ _ _ => rfl

/-- The server starts every job. -/
def willing : Nat → Answers :=
  fun _ => ⟨⟨0, 1⟩, 0, none⟩

theorem started_once_willing :
    let cycle := run (Cycle.round fairPolicy) (.start fairPolicy (twoJobs 2).sinfo)
      ((List.range 3).map willing)
    cycle.considered = [⟨0, .started⟩, ⟨1, .started⟩] ∧ StartsOnce (twoJobs 2).sinfo cycle :=
  ⟨by decide +kernel, started_once fairPolicy (queried_twoJobs 2) _⟩

/-- The server starts no job. -/
def unwilling : Nat → Answers :=
  fun _ => ⟨⟨0, 1⟩, 1, none⟩

/-- The first job is considered again and again. -/
theorem cycleAt_unwilling (n : Nat) :
    cycleAt fairPolicy (twoJobs 2).sinfo unwilling n =
      ⟨(twoJobs 2).sinfo, ⟨[], 0, -1⟩, false, List.replicate n ⟨0, .runFailed⟩⟩ := by
  induction n with
  | zero => rfl
  | succ n ih =>
    have chosen : nextJob fairPolicy (twoJobs 2).sinfo ⟨[], 0, -1⟩ =
        (⟨[], 0, -1⟩, some 0) := by decide +kernel
    have considered : considerJob fairPolicy (unwilling n) (twoJobs 2).sinfo 0 =
        (.runFailed, (twoJobs 2).sinfo) := by
      have same : (twoJobs 2).sinfo.putJob 0
          { (twoJobs 2).sinfo.jobInfo 0 with canNeverRun := false } = (twoJobs 2).sinfo :=
        congrArg (fun jobInfo => { (twoJobs 2).sinfo with jobInfo := jobInfo })
          (Function.update_eq_self 0 _)
      unfold considerJob
      refine (if_neg (show ¬ (1 : Int) = 0 by decide)).trans ?_
      exact congrArg (Prod.mk Outcome.runFailed) same
    change (cycleAt fairPolicy (twoJobs 2).sinfo unwilling n).round fairPolicy (unwilling n) = _
    rw [ih, round_some rfl chosen, Cycle.after, considered, List.replicate_succ']

/-- The first of the two jobs runs already. -/
def firstRuns : ServerInfo ℚ :=
  (twoJobs 2).sinfo.putJob 0 { (twoJobs 2).sinfo.jobInfo 0 with
    isQueued := false
    isRunning := true
    canNotRun := true }

theorem queried_firstRuns : Queried firstRuns := by
  constructor
  · exact List.Perm.refl _
  · exact (by decide : [0, 1].Nodup)
  · intro queue mem job here
    obtain rfl := List.mem_singleton.1 mem
    have both : ∀ job ∈ (firstRuns.queueInfo 0).jobs, (firstRuns.jobInfo job).queue = 0 := by
      decide
    exact both job here
  · decide
  · decide

/-- Only the round robin. -/
def roundPolicy : Policy :=
  ⟨true, false, false, false, false, false, false, 0, none, ⟨0, 0⟩⟩

theorem positional_cycle_ends_unwilling :
    let cycle := run (Cycle.round roundPolicy) (.start roundPolicy (twoJobs 2).sinfo)
      ((List.range 3).map unwilling)
    cycle.jobs = [0, 1] ∧ cycle.ended = true ∧ cycle.jobs.Nodup :=
  ⟨by decide +kernel, positional_cycle_ends roundPolicy (queried_twoJobs 2) rfl _ (by decide)⟩

/-- The round robin finds a marked job in its only turn, and gives up. -/
theorem cycleAt_firstRuns (n : Nat) :
    (cycleAt roundPolicy firstRuns willing (n + 1)).ended = true ∧
      (cycleAt roundPolicy firstRuns willing (n + 1)).jobs = [] := by
  induction n with
  | zero => decide +kernel
  | succ n ih =>
    have stays : cycleAt roundPolicy firstRuns willing (n + 2) =
        cycleAt roundPolicy firstRuns willing (n + 1) := by
      change (cycleAt roundPolicy firstRuns willing (n + 1)).round roundPolicy (willing _) = _
      rw [Cycle.round, if_pos ih.1]
    rw [stays]
    exact ih

end Torque.Scheduler
