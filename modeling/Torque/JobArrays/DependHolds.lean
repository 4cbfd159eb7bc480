import Torque.Dependency.Attribute
import Torque.JobArrays.Counters

/-!
# Jobs that depend on an array

A job may wait until so many subjobs of an array have started or ended, or may ask to be run
before so many have.  `set_array_depend_holds` compares the counters of the array with the number
that each dependent asks for, whenever a counter has changed.  A dependent that can never be
satisfied is deleted.

How many subjobs can still succeed, or fail, is told by the counters.  How many can still be
counted as started is not what the function computes: it takes all subjobs that have ended for
lost, also those that have started before.
-/

namespace Torque.JobArrays

open Torque.Dependency Torque.Server Torque.Transition

/-! ## `set_array_depend_holds` -/

/-- `array_depend_job`. -/
structure ArrayDependJob where
  dcChild : JobId
  dcNum : Int
  deriving DecidableEq

/-- `array_depend`. -/
structure ArrayDepend where
  dpType : DependType
  dpJobs : List ArrayDependJob
  deriving DecidableEq

/-- `compare_number`. -/
def compareNumber (info : ArrayInfo) : DependType → Int
  | .afterStartArray | .beforeStartArray => info.numStarted
  | .afterOkArray | .beforeOkArray => info.numSuccessful
  | .afterNotOkArray | .beforeNotOkArray => info.numFailed
  | .afterAnyArray | .beforeAnyArray => info.jobsDone
  | _ => -1

/-- `could_fulfill_dependency`. -/
def couldFulfillDependency (info : ArrayInfo) (arraySize : Int) : DependType → Int
  | .afterStartArray | .beforeStartArray => info.numJobs - info.jobsDone
  | .afterOkArray | .beforeOkArray => info.numJobs - info.numFailed
  | .afterNotOkArray | .beforeNotOkArray => info.numJobs - info.numSuccessful
  | _ => arraySize

/-- What is done with a dependent. -/
inductive DependAction where
  /-- `job_abt` -/
  | abort
  /-- It can never be satisfied, but it runs or has ended. -/
  | leave
  | hold
  /-- Its dependency is satisfied. -/
  | release
  deriving DecidableEq

/-- The decision about one dependent in a given state. -/
def dependAction (info : ArrayInfo) (arraySize : Int) (dpType : DependType) (dcNum : Int)
    (state : JobState) : DependAction :=
  let compare := compareNumber info dpType
  if (compare < dcNum ∧ dpType.code < DependType.beforeStartArray.code) ∨
      (dcNum ≤ compare ∧ DependType.afterAnyArray.code < dpType.code) then
    if DependType.afterAnyArray.code < dpType.code ∨
        (dpType.code < DependType.afterAnyArray.code ∧
          couldFulfillDependency info arraySize dpType < dcNum) then
      if stateCode state < stateCode .exiting ∧ state ≠ .running then .abort else .leave
    else .hold
  else .release

/-- The functions that are called for a dependent: `job_abt`, and `set_depend_hold` behind
`remove_array_dependency_job_from_job`.  Each tells the state of the job afterwards, or that the
server does not have it any more. -/
structure DependCalls where
  jobAbt : JobId → JobState → Option JobState
  setDependHold : JobId → JobState → Option JobState

/-- The dependents that the server has, those that were aborted, with the type of the dependency,
and whether a dependency was satisfied. -/
structure DependHolds where
  jobs : JobId → Option JobState
  aborted : List (DependType × ArrayDependJob)
  dependencySatisfied : Bool

section

variable (calls : DependCalls) (info : ArrayInfo) (arraySize : Int)

/-- The body of the loops. -/
def holdDependent (dpType : DependType) (holds : DependHolds) (pdj : ArrayDependJob) :
    DependHolds :=
  match holds.jobs pdj.dcChild with
  | none => holds
  | some state =>
    match dependAction info arraySize dpType pdj.dcNum state with
    | .abort =>
      { holds with
        jobs := Function.update holds.jobs pdj.dcChild (calls.jobAbt pdj.dcChild state)
        aborted := holds.aborted ++ [(dpType, pdj)] }
    | .leave => holds
    | .hold =>
      { holds with jobs := Function.update holds.jobs pdj.dcChild (some .held) }
    | .release =>
      { holds with
        jobs := Function.update holds.jobs pdj.dcChild (calls.setDependHold pdj.dcChild state)
        dependencySatisfied := true }

/-- The loop over the dependents of one type. -/
def holdDependents (holds : DependHolds) (pdep : ArrayDepend) : DependHolds :=
  pdep.dpJobs.foldl (holdDependent calls info arraySize pdep.dpType) holds

/-- `set_array_depend_holds`, for dependents that are no subjobs of the array. -/
def setArrayDependHolds (deps : List ArrayDepend) (jobs : JobId → Option JobState) : DependHolds :=
  deps.foldl (holdDependents calls info arraySize) ⟨jobs, [], false⟩

end

/-! ## Who is aborted -/

/-- The counters tell that a dependent can never be satisfied. -/
def Hopeless (info : ArrayInfo) (arraySize : Int) (dpType : DependType) (dcNum : Int) : Prop :=
  (DependType.afterAnyArray.code < dpType.code ∧ dcNum ≤ compareNumber info dpType) ∨
    dpType.code < DependType.afterAnyArray.code ∧ compareNumber info dpType < dcNum ∧
      couldFulfillDependency info arraySize dpType < dcNum

section

variable {calls : DependCalls} {info : ArrayInfo} {arraySize : Int} {dpType : DependType}

theorem hopeless_of_abort {dcNum : Int} {state : JobState}
    (abort : dependAction info arraySize dpType dcNum state = .abort) :
    Hopeless info arraySize dpType dcNum := by
  unfold dependAction at abort
  dsimp only at abort
  split at abort
  · next unmet =>
    split at abort
    · next never =>
      have before : DependType.beforeStartArray.code = 15 := rfl
      have any : DependType.afterAnyArray.code = 14 := rfl
      unfold Hopeless
      omega
    · cases abort
  · cases abort

/-- Only hopeless dependents have been aborted. -/
def AbortsHopeless (info : ArrayInfo) (arraySize : Int) (holds : DependHolds) : Prop :=
  ∀ entry ∈ holds.aborted, Hopeless info arraySize entry.1 entry.2.dcNum

theorem AbortsHopeless.holdDependent {holds : DependHolds}
    (hopeless : AbortsHopeless info arraySize holds) (pdj : ArrayDependJob) :
    AbortsHopeless info arraySize (holdDependent calls info arraySize dpType holds pdj) := by
  unfold JobArrays.holdDependent
  split
  · exact hopeless
  · split
    · next abort =>
      exact List.forall_mem_append.mpr
        ⟨hopeless, List.forall_mem_singleton.mpr (hopeless_of_abort abort)⟩
    · exact hopeless
    · exact hopeless
    · exact hopeless

theorem AbortsHopeless.setArrayDependHolds (deps : List ArrayDepend)
    (jobs : JobId → Option JobState) :
    AbortsHopeless info arraySize (setArrayDependHolds calls info arraySize deps jobs) := by
  refine run_invariant (AbortsHopeless info arraySize) ?_ ?_ deps
  · intro entry mem
    cases mem
  · intro holds pdep hopeless
    refine run_invariant (AbortsHopeless info arraySize) hopeless ?_ pdep.dpJobs
    intro holds pdj hopeless
    exact hopeless.holdDependent pdj

end

/-! ## What can become of the counters -/

/-- Subjobs start and end: no counter of starts or ends goes back, and a start is counted for a
subjob that neither runs nor has ended. -/
structure Onward (info info' : ArrayInfo) : Prop where
  started : info.numStarted ≤ info'.numStarted
  successful : info.numSuccessful ≤ info'.numSuccessful
  failed : info.numFailed ≤ info'.numFailed
  done : info.jobsDone ≤ info'.jobsDone
  numJobs : info'.numJobs = info.numJobs
  startable : info'.numStarted - info'.jobsDone - info'.jobsRunning ≤
    info.numStarted - info.jobsDone - info.jobsRunning

namespace Onward

variable {info info' info'' : ArrayInfo}

theorem refl (info : ArrayInfo) : Onward info info := by
  constructor <;> omega

theorem trans (first : Onward info info') (second : Onward info' info'') : Onward info info'' := by
  obtain ⟨started, successful, failed, done, numJobs, startable⟩ := first
  obtain ⟨started', successful', failed', done', numJobs', startable'⟩ := second
  constructor <;> omega

variable (oldState : JobState)

/-- An end is counted, in whatever state the subjob was. -/
theorem terminate (status : Int) (info : ArrayInfo) :
    Onward info (updateArrayValues oldState .aeTerminate status info) := by
  have running : (updateArrayValues oldState .aeTerminate status info).jobsRunning =
      if oldState = .running then decrement info.jobsRunning else info.jobsRunning :=
    jobsRunning_terminate oldState status
  have done : (updateArrayValues oldState .aeTerminate status info).jobsDone =
      info.jobsDone + 1 := jobsDone_terminate oldState status
  have started : (updateArrayValues oldState .aeTerminate status info).numStarted =
      info.numStarted := by
    cases oldState <;> dsimp only [JobArrays.updateArrayValues] <;> split <;> rfl
  have least : info.jobsRunning - 1 ≤
      (updateArrayValues oldState .aeTerminate status info).jobsRunning := by
    rw [running]
    unfold decrement
    split
    · split <;> omega
    · omega
  constructor
  · exact started.ge
  · cases oldState <;> dsimp only [JobArrays.updateArrayValues] <;> split <;> dsimp only <;> omega
  · cases oldState <;> dsimp only [JobArrays.updateArrayValues] <;> split <;> dsimp only <;> omega
  · omega
  · exact numJobs_updateArrayValues oldState .aeTerminate status
  · omega

/-- Only a rerun takes a start back. -/
theorem updateArrayValues (event : ArrayEvent) (status : Int) (info : ArrayInfo)
    (forward : event ≠ .aeRerun) : Onward info (updateArrayValues oldState event status info) := by
  cases event with
  | aeQueue =>
    dsimp only [JobArrays.updateArrayValues]
    split
    · exact ⟨le_rfl, le_rfl, le_rfl, le_rfl, rfl, le_rfl⟩
    · exact refl info
  | aeRun =>
    have counted : Onward info
        { info with jobsRunning := info.jobsRunning + 1, numStarted := info.numStarted + 1 } := by
      constructor <;> dsimp only <;> omega
    have idle : ∀ info' : ArrayInfo, Onward info' { info' with numIdle := info'.numIdle - 1 } :=
      fun _ => ⟨le_rfl, le_rfl, le_rfl, le_rfl, rfl, le_rfl⟩
    dsimp only [JobArrays.updateArrayValues]
    split
    · exact refl info
    · split
      · split
        · exact counted.trans (idle _)
        · exact idle info
      · split
        · exact counted
        · exact refl info
  | aeTerminate => exact terminate oldState status info
  | aeRerun => exact absurd rfl forward

end Onward

/-- The event is no rerun, and no request to delete subjobs. -/
def SubjobEvent.goesOn : SubjobEvent → Bool
  | .rerun .. => false
  | .rerunRequest .. => false
  | .requeue .. => false
  | .forget .. => false
  | .deleteRange .. => false
  | .deleteWhole .. => false
  | _ => true

/-- What belongs to the history of an array: subjobs are created, wait, start, and end with success
or failure. -/
def InHistory (state : ArrayState) (event : SubjobEvent) : Prop :=
  event.goesOn = true ∧ CountsRight state event
deriving Decidable

section

variable {state : ArrayState} {events : List SubjobEvent}

theorem onward_onLive {index : Nat} {act : LiveJob → ArrayInfo → Subjob × ArrayInfo}
    (onward : ∀ job, Onward state.info (act job state.info).2) :
    Onward state.info (onLive state index act).info := by
  unfold onLive
  split
  · exact .refl _
  · next job _ => exact onward job

theorem onward_jobAbt (signalled : Bool) (job : LiveJob) (info : ArrayInfo) :
    Onward info (jobAbt signalled job info).2 := by
  unfold jobAbt
  split
  · split
    · exact .refl info
    · exact Onward.terminate .running job.exitStat info
  · exact .refl info
  · exact Onward.terminate job.state job.exitStat info

theorem onward_subjobStep {event : SubjobEvent} (goesOn : event.goesOn = true) :
    Onward state.info (subjobStep state event).info := by
  cases event with
  | create index newState =>
    dsimp only [subjobStep]
    unfold createSubjob
    split
    · exact ⟨le_rfl, le_rfl, le_rfl, le_rfl, rfl, le_rfl⟩
    · exact .refl _
  | change =>
    refine onward_onLive fun job => ?_
    unfold changeJob
    split <;> exact .refl _
  | queue =>
    refine onward_onLive fun job => ?_
    unfold queueJob
    split
    · exact Onward.updateArrayValues job.state .aeQueue job.exitStat state.info nofun
    · exact .refl _
  | run =>
    refine onward_onLive fun job => ?_
    unfold runJob
    split
    · have counted := Onward.updateArrayValues job.state .aeRun job.exitStat state.info nofun
      split <;> exact counted
    · exact .refl _
  | sent =>
    refine onward_onLive fun job => ?_
    unfold finishSendmom
    split
    · split <;> exact .refl _
    · exact .refl _
  | terminate _ exitStatus =>
    refine onward_onLive fun job => ?_
    unfold terminateJob
    split
    · exact Onward.terminate .running exitStatus state.info
    · exact .refl _
  | abort => exact onward_onLive fun job => onward_jobAbt _ job _
  | finish =>
    refine onward_onLive fun job => ?_
    unfold finishJob
    split <;> exact .refl _
  | purge =>
    refine onward_onLive fun job => ?_
    unfold purgeJob
    split
    · exact ⟨le_rfl, le_rfl, le_rfl, le_rfl, rfl, le_rfl⟩
    · exact .refl _
  | rerun => cases goesOn
  | rerunRequest => cases goesOn
  | requeue => cases goesOn
  | forget => cases goesOn
  | deleteRange => cases goesOn
  | deleteWhole => cases goesOn

/-- The counters go onward in every continuation. -/
theorem onward_run (history : Admissible subjobStep InHistory state events) :
    Onward state.info (run subjobStep state events).info := by
  refine invariant (fun later => Onward state.info later.info) (.refl _) ?_ history
  rintro later event onward ⟨goesOn, _⟩
  exact onward.trans (onward_subjobStep goesOn)

/-- The counters stay exact in every continuation. -/
theorem exact_run (exact_ : Exact state) (history : Admissible subjobStep InHistory state events) :
    Exact (run subjobStep state events) := by
  refine invariant Exact exact_ ?_ history
  rintro later event exact_ ⟨_, right⟩
  exact subjobStep_exact later event exact_ right

theorem isRunning_of_ended {subjob : Subjob} (ended : subjob.isEnded = true) :
    subjob.isRunning = false := by
  cases subjob with
  | uncreated => rfl
  | live job =>
    apply decide_eq_false
    intro running
    rw [isEnded_of_running running] at ended
    cases ended
  | purged => rfl

theorem countP_ended_running (subjobs : List Subjob) :
    subjobs.countP Subjob.isEnded + subjobs.countP Subjob.isRunning ≤
      subjobs.countP Subjob.isCreated := by
  induction subjobs with
  | nil => exact le_rfl
  | cons subjob subjobs ih =>
    rw [List.countP_cons, List.countP_cons, List.countP_cons]
    by_cases ended : subjob.isEnded = true
    · rw [if_pos ended, if_pos (ended_created subjob ended), isRunning_of_ended ended]
      simp
      omega
    · rw [if_neg ended]
      by_cases running : subjob.isRunning = true
      · rw [if_pos running, if_pos (running_created subjob running)]
        omega
      · rw [if_neg running]
        omega

/-- Not more subjobs run and have ended than the array has. -/
theorem Exact.done_running_le (exact_ : Exact state) :
    state.info.jobsDone + state.info.jobsRunning ≤ state.info.numJobs := by
  have most := countP_ended_running state.subjobs
  obtain ⟨done, _, running, room⟩ := exact_
  omega

theorem Exact.jobsRunning_nonneg (exact_ : Exact state) : 0 ≤ state.info.jobsRunning := by
  rw [exact_.running]
  exact Int.natCast_nonneg _

end

variable {info later : ArrayInfo}

/-! ## Dependents that can never be satisfied -/

/-- The number that a dependent asks for is reached, or for the types `before` is not. -/
def Satisfied (info : ArrayInfo) (dpType : DependType) (dcNum : Int) : Prop :=
  if dpType.code < DependType.beforeStartArray.code then dcNum ≤ compareNumber info dpType
  else compareNumber info dpType < dcNum
deriving Decidable

/-- A type of dependency on an array. -/
def isArrayType (dpType : DependType) : Bool :=
  DependType.afterStartArray.code ≤ dpType.code

/-- Fewer subjobs than are asked for can ever be counted as started: those that are counted, and
those that neither run nor have ended. -/
def StartsExhausted (info : ArrayInfo) (dcNum : Int) : Prop :=
  info.numStarted + (info.numJobs - info.jobsDone - info.jobsRunning) < dcNum

theorem Onward.compareNumber_le (onward : Onward info later) (dpType : DependType) :
    compareNumber info dpType ≤ compareNumber later dpType := by
  cases dpType with
  | afterStartArray => exact onward.started
  | afterOkArray => exact onward.successful
  | afterNotOkArray => exact onward.failed
  | afterAnyArray => exact onward.done
  | beforeStartArray => exact onward.started
  | beforeOkArray => exact onward.successful
  | beforeNotOkArray => exact onward.failed
  | beforeAnyArray => exact onward.done
  | _ => exact le_rfl

theorem unsatisfied_of_hopeless {arraySize : Int} {dpType : DependType} {dcNum : Int}
    (array : isArrayType dpType = true) (hopeless : Hopeless info arraySize dpType dcNum)
    (starts : dpType = .afterStartArray → StartsExhausted info dcNum) (onward : Onward info later)
    (outcomes : later.jobsDone = later.numSuccessful + later.numFailed)
    (room : later.jobsDone + later.jobsRunning ≤ later.numJobs) (nonneg : 0 ≤ later.jobsRunning) :
    ¬ Satisfied later dpType dcNum := by
  rcases hopeless with ⟨before, many⟩ | ⟨after, _, few⟩
  · -- The number that the job was to be run before has been reached, and no count goes back.
    have more := onward.compareNumber_le dpType
    unfold Satisfied
    have late : ¬ dpType.code < DependType.beforeStartArray.code := Nat.not_lt.mpr before
    rw [if_neg late]
    omega
  · obtain ⟨_, successful, failed, _, numJobs, startable⟩ := onward
    cases dpType with
    | afterStartArray =>
      have exhausted := starts rfl
      unfold StartsExhausted at exhausted
      intro (reached : dcNum ≤ later.numStarted)
      omega
    | afterOkArray =>
      change info.numJobs - info.numFailed < dcNum at few
      intro (reached : dcNum ≤ later.numSuccessful)
      omega
    | afterNotOkArray =>
      change info.numJobs - info.numSuccessful < dcNum at few
      intro (reached : dcNum ≤ later.numFailed)
      omega
    | afterAnyArray => exact absurd after (by decide)
    | beforeStartArray => exact absurd after (by decide)
    | beforeOkArray => exact absurd after (by decide)
    | beforeNotOkArray => exact absurd after (by decide)
    | beforeAnyArray => exact absurd after (by decide)
    | _ => exact absurd array (by decide)

/-- A dependent that is aborted can never be satisfied in any continuation of the history, if for
the type `afterstartarray` not enough subjobs are left that can be counted as started. -/
theorem aborted_never_satisfied (numJobs arraySize : Nat) (slotLimit : Int)
    (history : List SubjobEvent) (calls : DependCalls) (deps : List ArrayDepend)
    (jobs : JobId → Option JobState) (entry : DependType × ArrayDependJob)
    (plain : Admissible subjobStep InHistory (.new numJobs arraySize slotLimit) history)
    (array : isArrayType entry.1 = true)
    (starts : entry.1 = .afterStartArray →
      StartsExhausted (run subjobStep (.new numJobs arraySize slotLimit) history).info
        entry.2.dcNum)
    (aborted : entry ∈ (setArrayDependHolds calls
      (run subjobStep (.new numJobs arraySize slotLimit) history).info arraySize deps
      jobs).aborted)
    (continuation : List SubjobEvent)
    (goesOn : Admissible subjobStep InHistory
      (run subjobStep (.new numJobs arraySize slotLimit) history) continuation) :
    ¬ Satisfied (run subjobStep (run subjobStep (.new numJobs arraySize slotLimit) history)
      continuation).info entry.1 entry.2.dcNum := by
  have now := exact_run (exact_new numJobs arraySize slotLimit) plain
  have later := exact_run now goesOn
  exact unsatisfied_of_hopeless array (AbortsHopeless.setArrayDependHolds deps jobs entry aborted)
    starts (onward_run goesOn) later.outcomes later.done_running_le later.jobsRunning_nonneg

/-- A dependent that is aborted completes, and one that is released keeps its state. -/
def plainCalls : DependCalls where
  jobAbt := fun _ _ => some .complete
  setDependHold := fun _ state => some state

/-- Two subjobs are created, and the first one starts and ends. -/
def oneEnded (exitStatus : Int) : List SubjobEvent :=
  [.create 0 .queued, .create 1 .queued, .run 0 true, .terminate 0 exitStatus]

/-- After a failure two successes of two subjobs cannot be reached. -/
theorem aborted_never_satisfied_ok :
    let state := run subjobStep (.new 2 2 (-1)) (oneEnded 1)
    (setArrayDependHolds plainCalls state.info 2 [⟨.afterOkArray, [⟨['d'], 2⟩]⟩]
        fun _ => some .held).aborted = [(.afterOkArray, ⟨['d'], 2⟩)] ∧
      ¬ Satisfied (run subjobStep state [.run 1 true, .terminate 1 0]).info .afterOkArray 2 := by
  refine ⟨by decide +kernel, ?_⟩
  exact aborted_never_satisfied 2 2 (-1) (oneEnded 1) plainCalls
    [⟨.afterOkArray, [⟨['d'], 2⟩]⟩] (fun _ => some .held) (.afterOkArray, ⟨['d'], 2⟩)
    (by decide +kernel) rfl nofun (by decide +kernel) [.run 1 true, .terminate 1 0]
    (by decide +kernel)

/-- The first of two subjobs has started and ended.  A dependent that waits for two starts is
aborted, although the second subjob can still start. -/
theorem aborted_before_last_start :
    ¬ ∀ (numJobs arraySize : Nat) (slotLimit : Int) (history : List SubjobEvent)
      (calls : DependCalls) (deps : List ArrayDepend) (jobs : JobId → Option JobState)
      (entry : DependType × ArrayDependJob),
      Admissible subjobStep InHistory (.new numJobs arraySize slotLimit) history →
      isArrayType entry.1 = true →
      entry ∈ (setArrayDependHolds calls
        (run subjobStep (.new numJobs arraySize slotLimit) history).info arraySize deps
        jobs).aborted →
      ∀ continuation : List SubjobEvent,
        Admissible subjobStep InHistory
          (run subjobStep (.new numJobs arraySize slotLimit) history) continuation →
        ¬ Satisfied (run subjobStep (run subjobStep (.new numJobs arraySize slotLimit) history)
          continuation).info entry.1 entry.2.dcNum := by
  intro never
  have unsatisfied := never 2 2 (-1) (oneEnded 0) plainCalls
    [⟨.afterStartArray, [⟨['d'], 2⟩]⟩] (fun _ => some .held) (.afterStartArray, ⟨['d'], 2⟩)
    (by decide +kernel) rfl (by decide +kernel) [.run 1 true] (by decide +kernel)
  exact unsatisfied (by decide +kernel)

end Torque.JobArrays
