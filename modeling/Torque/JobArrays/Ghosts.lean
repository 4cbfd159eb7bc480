import Torque.JobArrays.Counters

/-!
# Arrays made for their subjobs

If the file of an array is missing, the first of its subjobs that is recovered creates the
array, and `job_ids` grows with the indices of the others.
-/

namespace Torque.JobArrays

open Torque.Server Function List

/-- What is read of a recovered subjob.  Its index is an `int`. -/
structure RecoveredJob extends LiveJob where
  jobid : Name
  jobArrayId : Int
  isInt : -2 ^ 31 ≤ jobArrayId ∧ jobArrayId < 2 ^ 31

/-- `job_ids` has `array_size` entries; those that were not written are null pointers. -/
structure GhostArray where
  arraySize : Nat
  jobIds : Int → Option Name
  info : ArrayInfo

namespace GhostArray

variable (pa : GhostArray) (pjob : RecoveredJob)

/-- The name of a subjob is written into `job_ids`; `none` if that is outside of the table. -/
def setJobId : Option GhostArray :=
  if 0 ≤ pjob.jobArrayId ∧ pjob.jobArrayId < pa.arraySize then
    some { pa with jobIds := update pa.jobIds pjob.jobArrayId (some pjob.jobid) }
  else none

/-- The `array_size` of `ghost_create_jobs_array`. -/
def createdSize : Nat :=
  if pjob.jobArrayId > 101 then pjob.jobArrayId.toNat + 1 else 101

/-- `ghost_create_jobs_array`. -/
def ghostCreateJobsArray (slotLimit : Int) : Option GhostArray :=
  setJobId ⟨createdSize pjob, fun _ => none, { numJobs := 0, slotLimit := slotLimit }⟩ pjob

/-- The size that `check_and_reallocate_job_ids` leaves.  The test in front of the loop is that
of the loop; `none` if a size is not an `int`. -/
def reallocatedSize (index : Int) (size : Nat) : Option Nat :=
  if size = 0 ∨ 2 ^ 31 ≤ size then none
  else if size ≤ index then reallocatedSize index (2 * size)
  else some size
termination_by 2 ^ 31 - size

/-- `update_recovered_array_values`. -/
def updateRecoveredArrayValues (info : ArrayInfo) : ArrayInfo :=
  let counted := { info with numJobs := info.numJobs + 1 }
  let started := { counted with numStarted := counted.numStarted + 1 }
  let done := { started with jobsDone := started.jobsDone + 1 }
  match pjob.state with
  | .running => { started with jobsRunning := started.jobsRunning + 1 }
  | .complete =>
    if pjob.exitStat = 0 then { done with numSuccessful := done.numSuccessful + 1 }
    else { done with numFailed := done.numFailed + 1 }
  | _ => counted

/-- `set_array_job_ids` for a subjob of an array that was found or has just been created. -/
def setArrayJobIds : Option GhostArray := do
  let size ← reallocatedSize pjob.jobArrayId pa.arraySize
  setJobId ⟨size, pa.jobIds, updateRecoveredArrayValues pjob pa.info⟩ pjob

/-- The subjobs are recovered, and the first one creates the array. -/
def recoverSubjobs (slotLimit : Int) (first : RecoveredJob) (rest : List RecoveredJob) :
    Option GhostArray := do
  let pa ← ghostCreateJobsArray first slotLimit
  (first :: rest).foldlM setArrayJobIds pa

/-- The names of the subjobs are entered into a table. -/
def named (jobs : List RecoveredJob) (ids : Int → Option Name) : Int → Option Name :=
  jobs.foldr (fun job ids => update ids job.jobArrayId (some job.jobid)) ids

/-- The table names the subjobs and no others, and all of them are counted. -/
def Recovered (jobs : List RecoveredJob) (result : Option GhostArray) : Prop :=
  ∃ pa, result = some pa ∧ pa.info.numJobs = jobs.length ∧ pa.jobIds = named jobs fun _ => none

/-- The index is not negative, and the size can be doubled beyond it. -/
def Grows (size : Nat) (index : Int) : Prop :=
  0 ≤ index ∧ ∃ k, index < (size * 2 ^ k : Nat) ∧ size * 2 ^ k < 2 ^ 31

variable {pa pjob} {index : Int} {size : Nat} {jobs : List RecoveredJob}

theorem grows_two_mul (fits : 2 * size < 2 ^ 31 ∨ size ≤ index) :
    Grows (2 * size) index ↔ Grows size index := by
  have shift (k : Nat) : 2 * size * 2 ^ k = size * 2 ^ (k + 1) := by
    rw [Nat.pow_succ']
    ac_rfl
  refine and_congr_right fun _ => ⟨?_, ?_⟩
  · rintro ⟨k, grown⟩
    exact ⟨k + 1, shift k ▸ grown⟩
  · rintro ⟨_ | k, less, int⟩
    · exact ⟨0, by omega, by omega⟩
    · exact ⟨k, shift k ▸ ⟨less, int⟩⟩

theorem Grows.lt (grows : Grows size index) : size < 2 ^ 31 := by
  obtain ⟨-, k, -, int⟩ := grows
  exact (Nat.le_mul_of_pos_right size (Nat.two_pow_pos k)).trans_lt int

/-- The size is doubled until it is greater than the index. -/
theorem reallocatedSize_spec (nonneg : 0 ≤ index) (positive : size ≠ 0) :
    match reallocatedSize index size with
    | none => ¬ Grows size index
    | some grown => Grows size index ∧ grown ≠ 0 ∧ index < grown ∧
        ∀ other, Grows grown other ↔ Grows size other := by
  fun_induction reallocatedSize index size with
  | case1 size undefined =>
    intro grows
    have int := grows.lt
    omega
  | case2 size _ less ih =>
    rw [← grows_two_mul (.inr less)]
    have doubled := ih (by omega)
    split at doubled
    · exact doubled
    · obtain ⟨grows, some, room, others⟩ := doubled
      exact ⟨grows, some, room, fun other => (others other).trans (grows_two_mul (.inl grows.lt))⟩
  | case3 size _ more => exact ⟨⟨nonneg, 0, by omega⟩, positive, by omega, fun _ => Iff.rfl⟩

/-- A subjob gets its entry and is counted, or it cannot be entered. -/
theorem setArrayJobIds_spec (filled : pa.arraySize ≠ 0) :
    match pa.setArrayJobIds pjob with
    | none => ¬ Grows pa.arraySize pjob.jobArrayId
    | some next => Grows pa.arraySize pjob.jobArrayId ∧ next.arraySize ≠ 0 ∧
        (∀ other, Grows next.arraySize other ↔ Grows pa.arraySize other) ∧
        next.info.numJobs = pa.info.numJobs + 1 ∧
        next.jobIds = update pa.jobIds pjob.jobArrayId (some pjob.jobid) := by
  unfold setArrayJobIds
  by_cases nonneg : 0 ≤ pjob.jobArrayId
  · have spec := reallocatedSize_spec nonneg filled
    split at spec
    · next none =>
      rw [none]
      exact spec
    · next size grown =>
      obtain ⟨grows, some, room, others⟩ := spec
      rw [grown, Option.bind_eq_bind, Option.bind_some, setJobId, if_pos ⟨nonneg, room⟩]
      refine ⟨grows, some, others, ?_, rfl⟩
      dsimp only [updateRecoveredArrayValues]
      split
      · rfl
      · split <;> rfl
      · rfl
  · cases reallocatedSize pjob.jobArrayId pa.arraySize with
    | none => exact fun grows => nonneg grows.1
    | some size =>
      rw [Option.bind_eq_bind, Option.bind_some, setJobId, if_neg fun both => nonneg both.1]
      exact fun grows => nonneg grows.1

theorem named_update {ids : Int → Option Name} {name : Option Name}
    (other : index ∉ jobs.map (·.jobArrayId)) :
    named jobs (update ids index name) = update (named jobs ids) index name := by
  induction jobs with
  | nil => rfl
  | cons job jobs ih =>
    rw [map_cons, mem_cons, not_or] at other
    change update (named jobs _) _ _ = update (update (named jobs _) _ _) _ _
    rw [ih other.2, update_comm other.1]

/-- Each subjob gets its entry and is counted, or there is one that cannot be entered. -/
theorem foldlM_setArrayJobIds (filled : pa.arraySize ≠ 0)
    (distinct : (jobs.map (·.jobArrayId)).Nodup) :
    (∃ next, jobs.foldlM setArrayJobIds pa = some next ∧
      next.info.numJobs = pa.info.numJobs + jobs.length ∧ next.jobIds = named jobs pa.jobIds) ↔
    ∀ job ∈ jobs, Grows pa.arraySize job.jobArrayId := by
  induction jobs generalizing pa with
  | nil => simp [named]
  | cons job jobs ih =>
    obtain ⟨apart, distinct⟩ := nodup_cons.1 distinct
    rw [foldlM_cons, forall_mem_cons]
    have spec := @setArrayJobIds_spec pa job filled
    split at spec
    · next none =>
      rw [none]
      exact iff_of_false nofun fun all => spec all.1
    · next middle set =>
      obtain ⟨grows, filled, same, number, names⟩ := spec
      have rest := ih filled distinct
      simp only [same, number, names, named_update apart] at rest
      rw [set, and_iff_right grows, ← rest, length_cons, Int.natCast_succ, ← Int.add_assoc,
        Int.add_right_comm]
      rfl

/-- Distinct subjobs are recovered exactly if the first one is not just as large as the table,
none has a negative index, and the table can be doubled beyond each of them. -/
theorem ghosts_recovered_iff (slotLimit : Int) (first : RecoveredJob) (rest : List RecoveredJob)
    (distinct : ((first :: rest).map (·.jobArrayId)).Nodup) :
    Recovered (first :: rest) (recoverSubjobs slotLimit first rest) ↔
      first.jobArrayId ≠ 101 ∧
        ∀ job ∈ first :: rest, Grows (createdSize first) job.jobArrayId := by
  obtain ⟨room, filled⟩ : (first.jobArrayId < createdSize first ↔ first.jobArrayId ≠ 101) ∧
      createdSize first ≠ 0 := by
    unfold createdSize
    split <;> omega
  rw [recoverSubjobs, ghostCreateJobsArray, setJobId]
  by_cases inside : 0 ≤ first.jobArrayId ∧ first.jobArrayId < createdSize first
  · have folded := @foldlM_setArrayJobIds ⟨createdSize first,
      update (fun _ => none) first.jobArrayId (some first.jobid),
      { numJobs := 0, slotLimit := slotLimit }⟩ _ filled distinct
    have twice : named (first :: rest) (update (fun _ => none) first.jobArrayId first.jobid) =
        named (first :: rest) fun _ => none := by
      change update (named rest _) _ _ = _
      rw [named_update (nodup_cons.1 distinct).1, update_idem]
      rfl
    rw [twice, Int.zero_add] at folded
    rw [if_pos inside, and_iff_right (room.1 inside.2), ← folded]
    rfl
  · rw [if_neg inside]
    exact iff_of_false nofun fun ⟨other, all⟩ => inside ⟨(all first mem_cons_self).1, room.2 other⟩

/-- Two subjobs, the second of which is outside of the first table. -/
theorem ghosts_recovered_two :
    let first : RecoveredJob := ⟨{ state := .queued }, ['a'], 7, by decide⟩
    let second : RecoveredJob := ⟨{ state := .complete }, ['b'], 500, by decide⟩
    Recovered [first, second] (recoverSubjobs (-1) first [second]) := by
  refine (ghosts_recovered_iff (-1) _ _ (by decide)).2 ⟨by decide, ?_⟩
  simp only [forall_mem_cons]
  exact ⟨⟨by decide, 0, by decide⟩, ⟨by decide, 3, by simp [createdSize]⟩, forall_mem_nil _⟩

/-- The name of a first subjob with the index 101 is written behind the end of the table. -/
theorem ghost_written_behind_end :
    ¬ ∀ (slotLimit : Int) (first : RecoveredJob) (rest : List RecoveredJob),
      ((first :: rest).map (·.jobArrayId)).Nodup →
        Recovered (first :: rest) (recoverSubjobs slotLimit first rest) := by
  intro always
  obtain ⟨pa, recovered, -⟩ :=
    always (-1) ⟨{ state := .queued }, ['a'], 101, by decide⟩ [] (by decide)
  cases recovered

end GhostArray

end Torque.JobArrays
