import Mathlib.Data.List.Pairwise
import Torque.Scheduler.Cycle

/-!
# The order in which the jobs of a queue start

With `strict_fifo` no job of a queue is to start behind one that was considered and did not start.
The marks set by `update_jobs_cant_run` are to see to that.  They do where `next_job` heeds them,
which is in the round robin.  The iterator of the strict mode itself passes over them, and a job
that the server fails to start holds up no other.
-/

namespace Torque.Scheduler

open Torque.Numa Torque.Transition List

variable {F : Type} {jobs : List JobRef} {job other : JobRef} {sinfo : ServerInfo F}

/-! ## The jobs behind one that is refused -/

/-- What stands behind an element stands behind its first occurrence. -/
theorem mem_drop_idxOf (behind : [job, other].Sublist jobs) :
    other ∈ jobs.drop (jobs.idxOf job + 1) := by
  induction jobs with
  | nil => cases behind
  | cons first jobs ih =>
    rw [drop_succ_cons]
    by_cases same : first = job
    · rw [same, idxOf_cons_self, drop_zero]
      cases behind with
      | cons _ rest => exact (rest.subset (by simp))
      | cons_cons _ rest => exact singleton_sublist.mp rest
    · rw [idxOf_cons_ne _ same]
      cases behind with
      | cons _ rest => exact ih rest
      | cons_cons _ rest => exact absurd rfl same

theorem mem_cantRunFrom (behind : [job, other].Sublist jobs) :
    other ∈ cantRunFrom jobs (some job) .afterJob := by
  have found : jobs.idxOf job < jobs.length :=
    idxOf_lt_length_of_mem (behind.subset (by simp))
  unfold cantRunFrom
  dsimp only [Option.elim_some]
  rw [if_pos found]
  exact mem_drop_idxOf behind

/-- A refusal marks all jobs behind the refused one in its queue. -/
theorem canNotRun_of_refused [Floating F] {policy : Policy} (strict : policy.strictFifo = true)
    {answers : Answers} {code : FailCode}
    (refused : (considerJob policy answers sinfo job).1 = .refused code)
    (behind : [job, other].Sublist (sinfo.queueOf job).jobs) :
    ((considerJob policy answers sinfo job).2.jobInfo other).canNotRun = true := by
  revert refused
  refine considerJob_induction (motive := fun outcome sinfo' => outcome = .refused code →
    (sinfo'.jobInfo other).canNotRun = true) nofun nofun ?_
  intro _ _ _ _ _ marked _
  exact marked strict other (mem_cantRunFrom behind)

/-! ## The order of a cycle -/

/-- What the scheduler knows when the main loop begins: each job belongs to the queue that holds
it. -/
structure Snapshot (F : Type) where
  sinfo : ServerInfo F
  owned : ∀ queue, ∀ job ∈ (sinfo.queueInfo queue).jobs, (sinfo.jobInfo job).queue = queue

/-- No job has been started behind one of its queue that was considered before and did not
start. -/
def InOrder (snapshot : Snapshot F) (considered : List Considered) : Prop :=
  considered.Pairwise fun earlier later =>
    earlier.outcome ≠ .started → later.outcome = .started →
      ∀ queue, ¬ [earlier.job, later.job].Sublist (snapshot.sinfo.queueInfo queue).jobs

/-- A job that may run is not marked, and the server starts it. -/
def InTurn [Floating F] (policy : Policy) (cycle : Cycle F) (answers : Answers) : Prop :=
  ∀ job ∈ (nextJob policy cycle.sinfo cycle.iterator).2,
    (isOkToRunJob policy answers.query cycle.sinfo job).1 = none →
      (cycle.sinfo.jobInfo job).canNotRun = false ∧ answers.runjob = 0
deriving Decidable

/-- The queues are those of the snapshot, the jobs behind one that did not start are marked, and
all that has been considered is in order. -/
structure Orderly (snapshot : Snapshot F) (cycle : Cycle F) : Prop where
  keeps : Keeps snapshot.sinfo cycle.sinfo
  blocked : ∀ entry ∈ cycle.considered, entry.outcome ≠ .started →
    ∀ queue other, [entry.job, other].Sublist (snapshot.sinfo.queueInfo queue).jobs →
      (cycle.sinfo.jobInfo other).canNotRun = true
  inOrder : InOrder snapshot cycle.considered

theorem Orderly.start (policy : Policy) (snapshot : Snapshot F) :
    Orderly snapshot (.start policy snapshot.sinfo) := by
  constructor
  · exact .refl _
  · intro entry mem
    cases mem
  · exact List.Pairwise.nil

theorem considerJob_outcome [Floating F] (policy : Policy) (answers : Answers)
    (sinfo : ServerInfo F) (job : JobRef) :
    (considerJob policy answers sinfo job).1 =
      match (isOkToRunJob policy answers.query sinfo job).1 with
      | none => if answers.runjob = 0 then .started else .runFailed
      | some code => .refused code := by
  refine considerJob_induction (motive := fun outcome _ => outcome = _) ?_ ?_ ?_
  · intro _ ok accepted
    rw [ok]
    exact (if_pos accepted).symm
  · intro _ ok rejected
    rw [ok]
    exact (if_neg rejected).symm
  · intro code _ ok _ _ _
    rw [ok]

section

variable [Floating F] {policy : Policy} {snapshot : Snapshot F} {cycle : Cycle F}
  {answers : Answers}

variable (strict : policy.strictFifo = true) (orderly : Orderly snapshot cycle)
include strict orderly

theorem Orderly.considerJob (iterator : Iterator)
    (inTurn : (isOkToRunJob policy answers.query cycle.sinfo job).1 = none →
      (cycle.sinfo.jobInfo job).canNotRun = false ∧ answers.runjob = 0) :
    Orderly snapshot ⟨(considerJob policy answers cycle.sinfo job).2, iterator, false,
      cycle.considered ++ [⟨job, (considerJob policy answers cycle.sinfo job).1⟩]⟩ := by
  have keeps := keeps_considerJob policy answers cycle.sinfo job
  have outcome := considerJob_outcome policy answers cycle.sinfo job
  constructor
  · exact orderly.keeps.trans keeps
  · intro entry mem idle queue other behind
    rcases mem_append.mp mem with before | last
    · exact keeps.marks other (orderly.blocked entry before idle queue other behind)
    · rw [mem_singleton.mp last] at idle behind
      have queueOf : snapshot.sinfo.queueInfo queue = snapshot.sinfo.queueOf job := by
        unfold ServerInfo.queueOf
        rw [snapshot.owned queue job (behind.subset (by simp))]
      rw [queueOf, ← orderly.keeps.queueOf job] at behind
      cases ok : (isOkToRunJob policy answers.query cycle.sinfo job).1 with
      | none =>
        rw [ok] at outcome
        exact absurd (outcome.trans (if_pos (inTurn ok).2)) idle
      | some code =>
        rw [ok] at outcome
        exact canNotRun_of_refused strict outcome behind
  · refine pairwise_append.mpr ⟨orderly.inOrder, pairwise_singleton _ _, ?_⟩
    intro earlier before later last idle started queue behind
    rw [mem_singleton.mp last] at started behind
    have marked := orderly.blocked earlier before idle queue job behind
    cases ok : (isOkToRunJob policy answers.query cycle.sinfo job).1 with
    | none =>
      rw [(inTurn ok).1] at marked
      cases marked
    | some code =>
      rw [ok] at outcome
      cases outcome.symm.trans started

theorem Orderly.round (inTurn : InTurn policy cycle answers) :
    Orderly snapshot (cycle.round policy answers) := by
  unfold Cycle.round
  split
  · exact orderly
  · split
    · exact ⟨orderly.keeps, orderly.blocked, orderly.inOrder⟩
    · next iterator job next =>
      apply orderly.considerJob strict
      apply inTurn job
      rw [next]
      rfl

end

/-! ## Every cycle -/

/-- In every cycle in which no job is started against its mark, and the server starts the jobs that
may run, the jobs of each queue start in order. -/
theorem started_in_order [Floating F] (policy : Policy) (strict : policy.strictFifo = true)
    (snapshot : Snapshot F) (answers : List Answers)
    (inTurn : Admissible (Cycle.round policy) (InTurn policy) (.start policy snapshot.sinfo)
      answers) :
    InOrder snapshot
      (run (Cycle.round policy) (.start policy snapshot.sinfo) answers).considered := by
  have orderly := invariant (Orderly snapshot) (Orderly.start policy snapshot)
    (fun _ _ orderly inTurn => Orderly.round strict orderly inTurn) inTurn
  exact orderly.inOrder

/-- Two jobs in one queue, of which the first one asks for two units of memory. -/
def twoJobs (mem : Int) : Snapshot ℚ where
  sinfo := {
    res := [⟨.mem, mem, infinityVal, 0⟩]
    maxRun := infinityVal
    maxUserRun := infinityVal
    maxGroupRun := infinityVal
    sc := ⟨0, 2⟩
    queues := [0]
    jobs := [0, 1]
    runningJobs := []
    timesharingNodes := none
    tokens := []
    jobInfo := fun job =>
      ⟨true, false, false, false, ['u'], ['g'], 0, if job = 0 then [⟨.mem, 2, []⟩] else [], none, 0⟩
    queueInfo := fun queue =>
      ⟨⟨0, 2⟩, infinityVal, infinityVal, infinityVal, [], if queue = 0 then [0, 1] else [], []⟩
    groupInfo := fun _ => ⟨1, 1⟩ }
  owned := by
    intro queue job mem
    dsimp only at mem ⊢
    split at mem
    · next first => exact first.symm
    · cases mem

/-- Only `strict_fifo`, and with it the round robin if asked for. -/
def strictPolicy (roundRobin : Bool) : Policy :=
  ⟨roundRobin, false, true, false, false, false, false, 0, none, ⟨0, 0⟩⟩

/-- The round robin passes over the job behind the one that was refused. -/
theorem started_in_order_roundRobin :
    (run (Cycle.round (strictPolicy true)) (.start (strictPolicy true) (twoJobs 1).sinfo)
        [⟨⟨0, 1⟩, 0, none⟩, ⟨⟨0, 1⟩, 0, none⟩]).considered = [⟨0, .refused (.resource 0)⟩] ∧
      InOrder (twoJobs 1)
        (run (Cycle.round (strictPolicy true)) (.start (strictPolicy true) (twoJobs 1).sinfo)
          [⟨⟨0, 1⟩, 0, none⟩, ⟨⟨0, 1⟩, 0, none⟩]).considered := by
  refine ⟨by decide +kernel, ?_⟩
  exact started_in_order (strictPolicy true) rfl (twoJobs 1) _ (by decide +kernel)

/-- Without the round robin a job is started behind one that was refused, even if the server starts
all jobs that may run.  With the round robin a job is started behind one that the server failed to
start. -/
theorem started_behind_refused :
    (¬ ∀ (policy : Policy) (snapshot : Snapshot ℚ) (answers : List Answers),
      policy.strictFifo = true → (∀ answer ∈ answers, answer.runjob = 0) →
      InOrder snapshot
        (run (Cycle.round policy) (.start policy snapshot.sinfo) answers).considered) ∧
    ¬ ∀ (policy : Policy) (snapshot : Snapshot ℚ) (answers : List Answers),
      policy.strictFifo = true → policy.roundRobin = true →
      InOrder snapshot
        (run (Cycle.round policy) (.start policy snapshot.sinfo) answers).considered := by
  have first : [0, 1].Sublist ((twoJobs 1).sinfo.queueInfo 0).jobs := List.Sublist.refl _
  constructor
  · intro inOrder
    have order := inOrder (strictPolicy false) (twoJobs 1) [⟨⟨0, 1⟩, 0, none⟩, ⟨⟨0, 1⟩, 0, none⟩]
      rfl (by decide)
    exact rel_of_pairwise_cons order (mem_singleton_self _) nofun rfl 0 first
  · intro inOrder
    have order := inOrder (strictPolicy true) (twoJobs 2) [⟨⟨0, 1⟩, 1, none⟩, ⟨⟨0, 1⟩, 0, none⟩]
      rfl rfl
    exact rel_of_pairwise_cons order (mem_singleton_self _) nofun rfl 0 first

end Torque.Scheduler
