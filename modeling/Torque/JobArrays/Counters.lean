import Torque.JobArrays.Request
import Torque.Structure.Tally
import Torque.Server.Types

/-!
# The counters of a job array

A job array counts how many of its subjobs run and how many have ended, and with
which outcome.  The counters are changed by `update_array_values` whenever a subjob
starts, ends, or goes back to its queue, and once more by the requests that delete a
range of the subjobs or all of them.

Here the subjobs are modelled next to the counters, so that what is counted can be
compared with what there is.  As long as no request deletes a subjob the counters are
exact; a deleted subjob is counted more than once, or before its end.  A subjob that is
requeued after its end, or without an obituary, is not counted back.
-/

namespace Torque.JobArrays

open Torque.Server Torque.Structure Torque.Transition List

/-- The number behind a `JOB_STATE_*` name. -/
def stateCode : JobState → Nat
  | .transit => 0
  | .queued => 1
  | .held => 2
  | .waiting => 3
  | .running => 4
  | .exiting => 5
  | .complete => 6

/-- `ArrayEventsEnum`. -/
inductive ArrayEvent where
  | aeQueue
  | aeRun
  | aeTerminate
  | aeRerun
  deriving DecidableEq

/-- The counters of `array_info`. -/
structure ArrayInfo where
  numJobs : Int
  slotLimit : Int
  jobsRunning : Int := 0
  jobsDone : Int := 0
  numSuccessful : Int := 0
  numFailed : Int := 0
  numIdle : Int := 0
  numStarted : Int := 0
  numPurged : Int := 0
  deriving DecidableEq

/-- A counter that is not taken below zero. -/
def decrement (counter : Int) : Int :=
  if counter > 0 then counter - 1 else counter

/-- `update_array_values`.  The subjob that `create_job_if_needed` may create is an event of
its own, and so is the release of the first held subjob. -/
def updateArrayValues (oldState : JobState) (event : ArrayEvent) (jobExitStatus : Int)
    (info : ArrayInfo) : ArrayInfo :=
  match event with
  | .aeQueue =>
    if stateCode .running ≤ stateCode oldState then { info with numIdle := info.numIdle + 1 }
    else info
  | .aeRun =>
    if oldState = .running then info
    else
      let started :=
        if info.jobsRunning < info.numJobs then
          { info with jobsRunning := info.jobsRunning + 1, numStarted := info.numStarted + 1 }
        else info
      if stateCode oldState < stateCode .running then
        { started with numIdle := started.numIdle - 1 }
      else started
  | .aeTerminate =>
    let left :=
      match oldState with
      | .queued | .held | .waiting => { info with numIdle := info.numIdle - 1 }
      | .running => { info with jobsRunning := decrement info.jobsRunning }
      | _ => info
    if jobExitStatus = 0 then
      { left with jobsDone := left.jobsDone + 1, numSuccessful := left.numSuccessful + 1 }
    else { left with jobsDone := left.jobsDone + 1, numFailed := left.numFailed + 1 }
  | .aeRerun =>
    let left :=
      if oldState = .running then
        { info with
          jobsRunning := decrement info.jobsRunning
          numStarted := decrement info.numStarted }
      else info
    if stateCode .running ≤ stateCode oldState then { left with numIdle := left.numIdle + 1 }
    else left

/-! ## The subjobs -/

/-- What the modelled functions read of a subjob.  `prerun` is the substate of a running
subjob that is being sent to its node. -/
structure LiveJob where
  state : JobState
  prerun : Bool := false
  checkpointFile : Bool := false
  stagedIn : Bool := false
  exitStat : Int := 0
  deriving DecidableEq

/-- An entry of the array: a subjob that was not created yet, one that the server has, or
one that is gone. -/
inductive Subjob where
  | uncreated
  | live (job : LiveJob)
  | purged
  deriving DecidableEq

namespace Subjob

/-- The subjob is running. -/
def isRunning : Subjob → Bool
  | live job => job.state = .running
  | _ => false

/-- The subjob has ended. -/
def isEnded : Subjob → Bool
  | uncreated => false
  | live job => stateCode .exiting ≤ stateCode job.state
  | purged => true

/-- The subjob was created. -/
def isCreated : Subjob → Bool
  | uncreated => false
  | _ => true

end Subjob

/-- An array, its subjobs in the order of their indices, and how many indices it still has
to create. -/
structure ArrayState where
  info : ArrayInfo
  uncreated : Nat
  subjobs : List Subjob
  deriving DecidableEq

namespace ArrayState

/-- An array of `numJobs` subjobs with indices below `arraySize`. -/
def new (numJobs arraySize : Nat) (slotLimit : Int) : ArrayState where
  info := { numJobs := numJobs, slotLimit := slotLimit }
  uncreated := numJobs
  subjobs := replicate arraySize .uncreated

variable (state : ArrayState) (index : Nat)

/-- The subjob that the server has for an index. -/
def find : Option LiveJob :=
  match state.subjobs[index]? with
  | some (.live job) => some job
  | _ => none

/-- An entry and the counters get new values. -/
def put (subjob : Subjob) (info : ArrayInfo) : ArrayState :=
  { state with info := info, subjobs := state.subjobs.set index subjob }

end ArrayState

variable (subjob : Subjob) (info : ArrayInfo) {state : ArrayState}

/-! ## What happens to a subjob -/

section

variable (signalled : Bool) (job : LiveJob) (info : ArrayInfo)

/-- `job_abt`, and what it does to the counters.  `signalled` says whether a running job
could be sent the signal to end. -/
def jobAbt : LiveJob × ArrayInfo :=
  match job.state with
  | .running =>
    if signalled then ({ job with prerun := false }, info)
    else
      ({ job with state := .complete },
        updateArrayValues .running .aeTerminate job.exitStat info)
  | .transit => (job, info)
  | oldState =>
    ({ job with state := .complete }, updateArrayValues oldState .aeTerminate job.exitStat info)

/-- `delete_inactive_job`. -/
def deleteInactiveJob : LiveJob × ArrayInfo :=
  if job.checkpointFile then ({ job with state := .exiting }, info)
  else if job.stagedIn then jobAbt signalled job info
  else ({ job with state := .complete }, info)

/-- `attempt_delete`; the flag says whether the job counts as deleted. -/
def attemptDelete : Bool × LiveJob × ArrayInfo :=
  if job.state = .transit then (false, job, info)
  else if job.prerun then (false, deleteInactiveJob signalled job info)
  else if job.state = .running then (true, job, info)
  else (true, deleteInactiveJob signalled job info)

end

/-- `force_purge_work`: the end is counted and the job removed. -/
def forcePurgeWork (cancelExitCode : Int) (job : LiveJob) (info : ArrayInfo) : ArrayInfo :=
  let counted := updateArrayValues job.state .aeTerminate cancelExitCode info
  { counted with numPurged := counted.numPurged + 1 }

/-- What is given to the two functions that delete subjobs. -/
structure DeleteRequest where
  /-- All subjobs are deleted, not those of a range. -/
  whole : Bool
  purge : Bool
  cancelExitCode : Int
  signalled : Bool
  deriving DecidableEq

/-- The requests leave the subjobs alone that have ended, except for a purge of the whole
array. -/
def DeleteRequest.skips (request : DeleteRequest) (job : LiveJob) : Bool :=
  stateCode .exiting ≤ stateCode job.state && !(request.whole && request.purge)

/-- The body of the loops of `delete_array_range` and `delete_whole_array`.  The number
counts the deleted subjobs that were not running. -/
def deleteSubjob (request : DeleteRequest) (index : Nat) (state : ArrayState × Int) :
    ArrayState × Int :=
  match state.1.find index with
  | none => state
  | some job =>
    if request.skips job then state
    else
      let (deleted, subjob, info) :=
        if request.purge then
          (true, Subjob.purged, forcePurgeWork request.cancelExitCode job state.1.info)
        else
          let (deleted, job, info) := attemptDelete request.signalled job state.1.info
          (deleted, Subjob.live job, info)
      let numDeleted := if deleted && job.state ≠ .running then state.2 + 1 else state.2
      -- A purge of the whole array has counted the end already.
      let info :=
        if deleted && !(request.whole && request.purge) then
          updateArrayValues job.state .aeTerminate request.cancelExitCode info
        else info
      (state.1.put index subjob info, numDeleted)

/-- The loop over the indices, and the counting behind it. -/
def deleteSubjobs (request : DeleteRequest) (indices : List Nat) (state : ArrayState) :
    ArrayState :=
  let (state, numDeleted) :=
    indices.foldl (fun state index => deleteSubjob request index state) (state, 0)
  { state with
    info :=
      { state.info with
        jobsDone := state.info.jobsDone + numDeleted
        numFailed := state.info.numFailed + numDeleted } }

/-- The indices of a range that can be those of subjobs. -/
def rangeIndices (range : List Char) : List Nat :=
  ((translateRangeStringToVector range).2.filter (0 ≤ ·)).map Int.toNat

/-- `delete_array_range`; `range` is what follows the equals sign.  Nothing is deleted if it
is not a range. -/
def deleteArrayRange (purge signalled : Bool) (cancelExitCode : Int) (range : List Char)
    (state : ArrayState) : ArrayState :=
  if (translateRangeStringToVector range).1 then
    deleteSubjobs ⟨false, purge, cancelExitCode, signalled⟩ (rangeIndices range) state
  else state

/-- `delete_whole_array`. -/
def deleteWholeArray (purge signalled : Bool) (cancelExitCode : Int) (state : ArrayState) :
    ArrayState :=
  deleteSubjobs ⟨true, purge, cancelExitCode, signalled⟩ (range state.subjobs.length) state

/-- A subjob waits to be run. -/
def isIdle (state : JobState) : Bool :=
  state = .queued || state = .held || state = .waiting

/-- `chk_job_torun` and the check of the slot limit in `check_and_run_job_work`. -/
def canRun (info : ArrayInfo) (job : LiveJob) : Bool :=
  (job.state = .queued || job.state = .held) &&
    (info.slotLimit < 0 || info.jobsRunning < info.slotLimit)

/-- What happens to the subjobs of an array. -/
inductive SubjobEvent where
  /-- The subjob is created and goes to its queue. -/
  | create (index : Nat) (state : JobState)
  /-- A subjob that does not run gets or loses a hold, or files. -/
  | change (index : Nat) (state : JobState) (checkpointFile stagedIn : Bool)
  /-- `aeQueue` for a subjob that does not run. -/
  | queue (index : Nat)
  /-- The subjob is run; `started` is false if `svr_startjob` fails. -/
  | run (index : Nat) (started : Bool)
  /-- The node has the subjob, or sending it to the node failed. -/
  | sent (index : Nat) (accepted : Bool)
  /-- The obituary of a running subjob. -/
  | terminate (index : Nat) (exitStatus : Int)
  /-- A running subjob goes back to its queue, after a checkpoint or not. -/
  | rerun (index : Nat) (checkpointFile : Bool)
  /-- A request to rerun a subjob that runs, or has ended; `held` says that it has a hold. -/
  | rerunRequest (index : Nat) (held : Bool)
  /-- A running subjob goes to its queue without an obituary. -/
  | requeue (index : Nat) (state : JobState)
  /-- The node of a running subjob that is to be rerun does not know it. -/
  | forget (index : Nat)
  | abort (index : Nat) (signalled : Bool)
  /-- The server has done what is to do after the end. -/
  | finish (index : Nat)
  /-- `mark_end_of_subjob`: the subjob is removed from the server. -/
  | purge (index : Nat)
  | deleteRange (purge signalled : Bool) (cancelExitCode : Int) (range : List Char)
  | deleteWhole (purge signalled : Bool) (cancelExitCode : Int)
  deriving DecidableEq

/-- An event about a subjob that the server has; there is nothing to do for another. -/
def onLive (state : ArrayState) (index : Nat)
    (act : LiveJob → ArrayInfo → Subjob × ArrayInfo) : ArrayState :=
  match state.find index with
  | none => state
  | some job => state.put index (act job state.info).1 (act job state.info).2

/-- A subjob that does not run gets another state that is none of a running job. -/
def changeJob (newState : JobState) (checkpointFile stagedIn : Bool) (job : LiveJob)
    (info : ArrayInfo) : Subjob × ArrayInfo :=
  if isIdle job.state && isIdle newState then
    (.live { job with state := newState, checkpointFile := checkpointFile, stagedIn := stagedIn },
      info)
  else (.live job, info)

section

variable (job : LiveJob) (info : ArrayInfo)

/-- A subjob that does not run is queued. -/
def queueJob : Subjob × ArrayInfo :=
  if isIdle job.state then
    (.live { job with state := .queued }, updateArrayValues job.state .aeQueue job.exitStat info)
  else (.live job, info)

/-- `check_and_run_job_work`: the run is counted before the job is started. -/
def runJob (started : Bool) (job : LiveJob) (info : ArrayInfo) : Subjob × ArrayInfo :=
  if canRun info job then
    let info := updateArrayValues job.state .aeRun job.exitStat info
    if started then (.live { job with state := .running, prerun := true }, info)
    else (.live job, info)
  else (.live job, info)

/-- `finish_sendmom`. -/
def finishSendmom (accepted : Bool) (job : LiveJob) (info : ArrayInfo) : Subjob × ArrayInfo :=
  if job.state = .running ∧ job.prerun = true then
    if accepted then (.live { job with prerun := false }, info)
    else (.live { job with state := .queued, prerun := false }, info)
  else (.live job, info)

/-- `handle_terminating_array_subjob`. -/
def terminateJob (exitStatus : Int) (job : LiveJob) (info : ArrayInfo) : Subjob × ArrayInfo :=
  if job.state = .running then
    (.live { job with state := .exiting, prerun := false, exitStat := exitStatus },
      updateArrayValues .running .aeTerminate exitStatus info)
  else (.live job, info)

/-- `handle_rerunning_array_subjob`. -/
def rerunJob (checkpointFile : Bool) (job : LiveJob) (info : ArrayInfo) : Subjob × ArrayInfo :=
  if job.state = .running then
    (.live { job with state := .queued, prerun := false, checkpointFile := checkpointFile },
      updateArrayValues .running .aeRerun (-1) info)
  else (.live job, info)

/-- `req_rerunjob` and `finalize_rerunjob`: a running subjob is sent the signal to end, and one that
has ended is queued again. -/
def reqRerunjob (held : Bool) (job : LiveJob) (info : ArrayInfo) : Subjob × ArrayInfo :=
  match job.state with
  | .running => (.live { job with prerun := false, checkpointFile := false }, info)
  | .exiting | .complete =>
    (.live { job with state := if held then .held else .queued, checkpointFile := false }, info)
  | _ => (.live job, info)

/-- `requeue_job_without_contacting_mom`, `post_rerun` for a signal that was rejected, and
`finalize_rerunjob` for a forced rerun. -/
def requeueJob (newState : JobState) (job : LiveJob) (info : ArrayInfo) : Subjob × ArrayInfo :=
  if job.state = .running ∧ isIdle newState = true then
    (.live { job with state := newState, prerun := false }, info)
  else (.live job, info)

/-- `delay_and_send_sig_kill` for a subjob that is unknown to its node. -/
def forgetJob (job : LiveJob) (info : ArrayInfo) : Subjob × ArrayInfo :=
  if job.state = .running then (.purged, { info with numPurged := info.numPurged + 1 })
  else (.live job, info)

/-- `job_abt` for a subjob. -/
def abortJob (signalled : Bool) (job : LiveJob) (info : ArrayInfo) : Subjob × ArrayInfo :=
  (.live (jobAbt signalled job info).1, (jobAbt signalled job info).2)

/-- A subjob that has exited is complete. -/
def finishJob : Subjob × ArrayInfo :=
  if job.state = .exiting then (.live { job with state := .complete }, info) else (.live job, info)

/-- A subjob that is complete is purged. -/
def purgeJob : Subjob × ArrayInfo :=
  if job.state = .complete then (.purged, { info with numPurged := info.numPurged + 1 })
  else (.live job, info)

end

/-- The creation of a subjob. -/
def createSubjob (index : Nat) (newState : JobState) (state : ArrayState) : ArrayState :=
  if state.subjobs[index]? = some .uncreated ∧ 0 < state.uncreated ∧ isIdle newState then
    { state with
      info := { state.info with numIdle := state.info.numIdle + 1 }
      uncreated := state.uncreated - 1
      subjobs := state.subjobs.set index (.live { state := newState }) }
  else state

/-- One event.  An event that the state of the subjob does not allow changes nothing. -/
def subjobStep (state : ArrayState) : SubjobEvent → ArrayState
  | .create index newState => createSubjob index newState state
  | .change index newState checkpointFile stagedIn =>
    onLive state index (changeJob newState checkpointFile stagedIn)
  | .queue index => onLive state index queueJob
  | .run index started => onLive state index (runJob started)
  | .sent index accepted => onLive state index (finishSendmom accepted)
  | .terminate index exitStatus => onLive state index (terminateJob exitStatus)
  | .rerun index checkpointFile => onLive state index (rerunJob checkpointFile)
  | .rerunRequest index held => onLive state index (reqRerunjob held)
  | .requeue index newState => onLive state index (requeueJob newState)
  | .forget index => onLive state index forgetJob
  | .abort index signalled => onLive state index (abortJob signalled)
  | .finish index => onLive state index finishJob
  | .purge index => onLive state index purgeJob
  | .deleteRange purge signalled cancelExitCode range =>
    deleteArrayRange purge signalled cancelExitCode range state
  | .deleteWhole purge signalled cancelExitCode =>
    deleteWholeArray purge signalled cancelExitCode state

/-! ## What is counted and what there is -/

/-- The counters say what the subjobs are. -/
structure Exact (state : ArrayState) : Prop where
  done : state.info.jobsDone = state.subjobs.countP Subjob.isEnded
  outcomes : state.info.jobsDone = state.info.numSuccessful + state.info.numFailed
  running : state.info.jobsRunning = state.subjobs.countP Subjob.isRunning
  room : state.subjobs.countP Subjob.isCreated + state.uncreated ≤ state.info.numJobs

/-- The counters follow one subjob. -/
structure Tracks (old new : Subjob) (info info' : ArrayInfo) : Prop where
  done : info'.jobsDone + old.isEnded.toNat = info.jobsDone + new.isEnded.toNat
  outcomes : info'.numSuccessful + info'.numFailed + old.isEnded.toNat =
    info.numSuccessful + info.numFailed + new.isEnded.toNat
  running : info'.jobsRunning + old.isRunning.toNat = info.jobsRunning + new.isRunning.toNat
  numJobs : info'.numJobs = info.numJobs
  created : new.isCreated = old.isCreated

/-- The counters follow what an event does to a subjob. -/
abbrev Follows (job : LiveJob) (info : ArrayInfo) (result : Subjob × ArrayInfo) : Prop :=
  Tracks (.live job) result.1 info result.2

/-- Nothing is counted as an end. -/
structure SameEnds (info info' : ArrayInfo) : Prop where
  done : info'.jobsDone = info.jobsDone
  successful : info'.numSuccessful = info.numSuccessful
  failed : info'.numFailed = info.numFailed
  numJobs : info'.numJobs = info.numJobs

/-- A subjob that does not end is followed if its start or stop is. -/
theorem SameEnds.tracks {old new : Subjob} {info info' : ArrayInfo} (same : SameEnds info info')
    (ended : new.isEnded = old.isEnded) (created : new.isCreated = old.isCreated)
    (running : info'.jobsRunning + old.isRunning.toNat = info.jobsRunning + new.isRunning.toNat) :
    Tracks old new info info' :=
  ⟨by rw [same.done, ended], by rw [same.successful, same.failed, ended], running, same.numJobs,
    created⟩

theorem SameEnds.refl : SameEnds info info :=
  ⟨rfl, rfl, rfl, rfl⟩

theorem Tracks.refl : Tracks subjob subjob info info :=
  ⟨rfl, rfl, rfl, rfl, rfl⟩

theorem ArrayState.find_eq_some {index : Nat} {job : LiveJob}
    (found : state.find index = some job) : state.subjobs[index]? = some (.live job) := by
  unfold ArrayState.find at found
  split at found
  · rename_i entry
    rw [entry]
    exact congrArg (fun job => some (Subjob.live job)) (Option.some.inj found)
  · cases found

theorem ended_created (ended : subjob.isEnded = true) : subjob.isCreated = true := by
  cases subjob with
  | uncreated => exact absurd ended (by decide)
  | live job => rfl
  | purged => rfl

theorem running_created (running : subjob.isRunning = true) : subjob.isCreated = true := by
  cases subjob with
  | uncreated => exact absurd running (by decide)
  | live job => rfl
  | purged => rfl

namespace Exact

variable {state : ArrayState} {index : Nat} {job : LiveJob}

/-- The counters stay exact if they follow the subjob that changes. -/
theorem put {old new : Subjob} {info : ArrayInfo} (exact_ : Exact state)
    (found : state.subjobs[index]? = some old) (tracks : Tracks old new state.info info) :
    Exact (state.put index new info) := by
  have ended := countP_set_add Subjob.isEnded new found
  have running := countP_set_add Subjob.isRunning new found
  have created := countP_set_add Subjob.isCreated new found
  rw [tracks.created] at created
  obtain ⟨done, outcomes, isRunning, room⟩ := exact_
  obtain ⟨done', outcomes', running', numJobs, -⟩ := tracks
  refine ⟨?_, ?_, ?_, ?_⟩ <;> dsimp only [ArrayState.put] <;> omega

theorem jobsRunning_pos (exact_ : Exact state) (found : state.find index = some job)
    (running : job.state = .running) : 0 < state.info.jobsRunning := by
  have mem := mem_of_getElem? (ArrayState.find_eq_some found)
  have counted : 0 < state.subjobs.countP Subjob.isRunning :=
    countP_pos_iff.2 ⟨_, mem, decide_eq_true running⟩
  rw [exact_.running]
  omega

/-- There is room in the count of the running subjobs for one that does not run. -/
theorem jobsRunning_lt (exact_ : Exact state) (found : state.find index = some job)
    (stopped : job.state ≠ .running) : state.info.jobsRunning < state.info.numJobs := by
  have entry := ArrayState.find_eq_some found
  have running := countP_set_add Subjob.isRunning (.live { state := .running }) entry
  have created := countP_set_add Subjob.isCreated (.live { state := .running }) entry
  have one : (Subjob.live job).isRunning = false := decide_eq_false stopped
  have most : (state.subjobs.set index (.live { state := .running })).countP Subjob.isRunning ≤
      (state.subjobs.set index (.live { state := .running })).countP Subjob.isCreated :=
    countP_mono_left fun subjob _ => running_created subjob
  rw [one] at running
  simp only [Subjob.isRunning, Subjob.isCreated, decide_true, Bool.toNat_true, Bool.toNat_false]
    at running created
  have room := exact_.room
  rw [exact_.running]
  omega

/-- The events about one subjob, by what they do to it. -/
theorem onLive {act : LiveJob → ArrayInfo → Subjob × ArrayInfo} (exact_ : Exact state)
    (tracks : ∀ job, state.find index = some job →
      (job.state = .running → 0 < state.info.jobsRunning) →
      (job.state ≠ .running → state.info.jobsRunning < state.info.numJobs) →
      Follows job state.info (act job state.info)) :
    Exact (onLive state index act) := by
  unfold JobArrays.onLive
  split
  · exact exact_
  · next job found =>
    exact exact_.put (ArrayState.find_eq_some found)
      (tracks job found (exact_.jobsRunning_pos found) (exact_.jobsRunning_lt found))

end Exact

/-! ## What `update_array_values` counts -/

section

variable {job : LiveJob} {info : ArrayInfo} (oldState : JobState) (event : ArrayEvent)
  (status : Int)

theorem numJobs_updateArrayValues :
    (updateArrayValues oldState event status info).numJobs = info.numJobs := by
  cases event <;> cases oldState <;> dsimp only [updateArrayValues] <;> (repeat' split) <;> rfl

theorem jobsDone_terminate :
    (updateArrayValues oldState .aeTerminate status info).jobsDone = info.jobsDone + 1 := by
  cases oldState <;> dsimp only [updateArrayValues] <;> split <;> rfl

theorem outcomes_terminate :
    (updateArrayValues oldState .aeTerminate status info).numSuccessful +
        (updateArrayValues oldState .aeTerminate status info).numFailed =
      info.numSuccessful + info.numFailed + 1 := by
  cases oldState <;> dsimp only [updateArrayValues] <;> split <;> dsimp only <;> omega

theorem jobsRunning_terminate :
    (updateArrayValues oldState .aeTerminate status info).jobsRunning =
      if oldState = .running then decrement info.jobsRunning else info.jobsRunning := by
  cases oldState <;> dsimp only [updateArrayValues] <;> split <;> rfl

/-- Queuing, starts and reruns do not count an end. -/
theorem sameEnds_updateArrayValues {oldState : JobState} {status : Int}
    (other : event ≠ .aeTerminate) :
    SameEnds info (updateArrayValues oldState event status info) := by
  cases event with
  | aeTerminate => exact absurd rfl other
  | aeQueue =>
    dsimp only [updateArrayValues]
    split <;> exact ⟨rfl, rfl, rfl, rfl⟩
  | aeRun =>
    dsimp only [updateArrayValues]
    (repeat' split) <;> exact ⟨rfl, rfl, rfl, rfl⟩
  | aeRerun =>
    dsimp only [updateArrayValues]
    (repeat' split) <;> exact ⟨rfl, rfl, rfl, rfl⟩

theorem tracks_terminate {new : Subjob} {status : Int}
    (counted : job.state = .running → 0 < info.jobsRunning)
    (unended : (Subjob.live job).isEnded = false) (ended : new.isEnded = true)
    (stopped : new.isRunning = false) :
    Tracks (.live job) new info (updateArrayValues job.state .aeTerminate status info) where
  done := by
    rw [jobsDone_terminate, unended, ended]
    simp
  outcomes := by
    rw [outcomes_terminate, unended, ended]
    simp
  running := by
    rw [jobsRunning_terminate, stopped]
    by_cases running : job.state = .running
    · have pos := counted running
      have before : (Subjob.live job).isRunning = true := decide_eq_true running
      rw [if_pos running, before, decrement, if_pos pos]
      simp
    · have before : (Subjob.live job).isRunning = false := decide_eq_false running
      rw [if_neg running, before]
  numJobs := numJobs_updateArrayValues _ _ _
  created := ended_created new ended

end

/-! ## The events about one subjob -/

section

variable {job : LiveJob} {info : ArrayInfo}

theorem isIdle_iff {state : JobState} :
    isIdle state = true ↔ state = .queued ∨ state = .held ∨ state = .waiting := by
  cases state <;> decide

theorem isEnded_of_idle (idle : isIdle job.state = true) : (Subjob.live job).isEnded = false := by
  rcases isIdle_iff.1 idle with old | old | old <;> simp [Subjob.isEnded, old, stateCode]

theorem isRunning_of_idle (idle : isIdle job.state = true) :
    (Subjob.live job).isRunning = false := by
  rcases isIdle_iff.1 idle with old | old | old <;> simp [Subjob.isRunning, old]

theorem isEnded_of_running (running : job.state = .running) :
    (Subjob.live job).isEnded = false := by
  simp [Subjob.isEnded, running, stateCode]

theorem tracks_changeJob (newState : JobState) (checkpointFile stagedIn : Bool) :
    Follows job info (changeJob newState checkpointFile stagedIn job info) := by
  unfold changeJob
  split
  · next idle =>
    rw [Bool.and_eq_true] at idle
    apply (SameEnds.refl info).tracks
    · rw [isEnded_of_idle idle.1, isEnded_of_idle idle.2]
    · rfl
    · rw [isRunning_of_idle idle.1, isRunning_of_idle idle.2]
  · exact .refl _ _

theorem tracks_queueJob : Follows job info (queueJob job info) := by
  unfold queueJob
  split
  · next idle =>
    dsimp only [Follows]
    refine (sameEnds_updateArrayValues .aeQueue nofun).tracks ?_ ?_ ?_
    · rw [isEnded_of_idle idle]
      rfl
    · rfl
    · rw [isRunning_of_idle idle]
      dsimp only [updateArrayValues]
      split <;> rfl
  · exact .refl _ _

theorem tracks_runJob {started : Bool}
    (room : job.state ≠ .running → info.jobsRunning < info.numJobs)
    (starts : started = true ∨ canRun info job = false) :
    Follows job info (runJob started job info) := by
  unfold runJob
  split
  · next can =>
    obtain rfl : started = true := starts.resolve_right (by rw [can]; decide)
    have idle : isIdle job.state = true := by
      simp only [canRun, Bool.and_eq_true, Bool.or_eq_true, decide_eq_true_eq] at can
      rcases can.1 with old | old <;> rw [old] <;> rfl
    have stopped : job.state ≠ .running := by
      intro running
      rw [running] at idle
      exact absurd idle (by decide)
    rw [if_pos rfl]
    dsimp only [Follows]
    refine (sameEnds_updateArrayValues .aeRun nofun).tracks ?_ ?_ ?_
    · rw [isEnded_of_idle idle]
      rfl
    · rfl
    · rw [isRunning_of_idle idle]
      dsimp only [updateArrayValues]
      rw [if_neg stopped, if_pos (room stopped)]
      split <;> simp [Subjob.isRunning]
  · exact .refl _ _

theorem tracks_finishSendmom {accepted : Bool}
    (arrives : accepted = true ∨ ¬ (job.state = .running ∧ job.prerun = true)) :
    Follows job info (finishSendmom accepted job info) := by
  unfold finishSendmom
  split
  · next sending =>
    obtain rfl : accepted = true := arrives.resolve_right (not_not_intro sending)
    exact (SameEnds.refl info).tracks rfl rfl rfl
  · exact .refl _ _

theorem tracks_terminateJob (exitStatus : Int)
    (counted : job.state = .running → 0 < info.jobsRunning) :
    Follows job info (terminateJob exitStatus job info) := by
  unfold terminateJob
  split
  · next running =>
    have tracks : Tracks (.live job)
        (.live { job with state := .exiting, prerun := false, exitStat := exitStatus }) info
        (updateArrayValues job.state .aeTerminate exitStatus info) :=
      tracks_terminate counted (isEnded_of_running running) rfl rfl
    rwa [running] at tracks
  · exact .refl _ _

theorem tracks_rerunJob (checkpointFile : Bool)
    (counted : job.state = .running → 0 < info.jobsRunning) :
    Follows job info (rerunJob checkpointFile job info) := by
  unfold rerunJob
  split
  · next running =>
    have before : (Subjob.live job).isRunning = true := decide_eq_true running
    dsimp only [Follows]
    refine (sameEnds_updateArrayValues .aeRerun nofun).tracks ?_ ?_ ?_
    · rw [isEnded_of_running running]
      rfl
    · rfl
    · have less := counted running
      rw [before]
      dsimp only [updateArrayValues, decrement]
      split <;> simp [Subjob.isRunning]
  · exact .refl _ _

theorem tracks_reqRerunjob (held : Bool) (unended : (Subjob.live job).isEnded = false) :
    Follows job info (reqRerunjob held job info) := by
  unfold reqRerunjob
  split
  · exact (SameEnds.refl info).tracks rfl rfl rfl
  · next exiting => simp [Subjob.isEnded, exiting, stateCode] at unended
  · next complete => simp [Subjob.isEnded, complete, stateCode] at unended
  · exact .refl _ _

theorem tracks_requeueJob (newState : JobState) (stopped : job.state ≠ .running) :
    Follows job info (requeueJob newState job info) := by
  rw [requeueJob, if_neg fun both => stopped both.1]
  exact .refl _ _

theorem tracks_forgetJob (stopped : job.state ≠ .running) :
    Follows job info (forgetJob job info) := by
  rw [forgetJob, if_neg stopped]
  exact .refl _ _

theorem tracks_abortJob (signalled : Bool) (counted : job.state = .running → 0 < info.jobsRunning)
    (unended : (Subjob.live job).isEnded = false) :
    Follows job info (abortJob signalled job info) := by
  have ended : Tracks (.live job) (.live { job with state := .complete }) info
      (updateArrayValues job.state .aeTerminate job.exitStat info) :=
    tracks_terminate counted unended rfl rfl
  unfold abortJob jobAbt
  split
  · next running =>
    split
    · exact (SameEnds.refl info).tracks rfl rfl rfl
    · rwa [running] at ended
  · exact .refl _ _
  · exact ended

theorem tracks_finishJob : Follows job info (finishJob job info) := by
  unfold finishJob
  split
  · next exiting =>
    refine (SameEnds.refl info).tracks ?_ rfl ?_ <;>
      simp [Subjob.isEnded, Subjob.isRunning, exiting, stateCode]
  · exact .refl _ _

theorem tracks_purgeJob : Follows job info (purgeJob job info) := by
  unfold purgeJob
  split
  · next complete =>
    have same : SameEnds info { info with numPurged := info.numPurged + 1 } :=
      ⟨rfl, rfl, rfl, rfl⟩
    refine same.tracks ?_ rfl ?_ <;>
      simp [Subjob.isEnded, Subjob.isRunning, complete, stateCode]
  · exact .refl _ _

end

/-! ## The requests that delete subjobs -/

/-- A request leaves the count right for a subjob that it skips, and for a running one that
is purged with the whole array. -/
def DeleteRequest.CountsOnce (request : DeleteRequest) (job : LiveJob) : Prop :=
  if request.whole && request.purge then job.state = .running
  else stateCode .exiting ≤ stateCode job.state ∨ (request.purge = false ∧ job.state = .transit)
deriving Decidable

/-- Replacing a subjob by itself, or taking it away, adds no subjob. -/
theorem ArrayState.find_put {index other : Nat} {job found : LiveJob}
    {subjob : Subjob} {info : ArrayInfo} (old : state.find index = some job)
    (kept : subjob = .live job ∨ subjob = .purged)
    (now : (state.put index subjob info).find other = some found) :
    state.find other = some found := by
  have entry := ArrayState.find_eq_some now
  dsimp only [ArrayState.put] at entry
  by_cases same : index = other
  · subst same
    rw [getElem?_set_self', ArrayState.find_eq_some old] at entry
    have equal : subjob = .live found := Option.some.inj entry
    rcases kept with rfl | rfl
    · cases equal
      exact old
    · exact absurd equal nofun
  · rw [getElem?_set_ne same] at entry
    unfold ArrayState.find
    rw [entry]

section

variable {request : DeleteRequest} {index : Nat} {state : ArrayState} {n : Int} {job : LiveJob}
  {indices : List Nat}

/-- One round of the loop that deletes no subjob, or purges a running one. -/
theorem deleteSubjob_exact (exact_ : Exact state)
    (once : ∀ job, state.find index = some job → request.CountsOnce job) :
    ∃ after, deleteSubjob request index (state, n) = (after, n) ∧ Exact after ∧
      ∀ other job, after.find other = some job → state.find other = some job := by
  cases found : state.find index with
  | none =>
    refine ⟨state, ?_, exact_, fun _ _ found => found⟩
    simp [deleteSubjob, found]
  | some job =>
    have harmless := once job found
    rw [DeleteRequest.CountsOnce] at harmless
    split at harmless
    · next wholePurge =>
      rw [Bool.and_eq_true] at wholePurge
      -- the purge alone counts the running subjob
      refine
        ⟨state.put index .purged (forcePurgeWork request.cancelExitCode job state.info), ?_, ?_,
        fun _ _ now => ArrayState.find_put found (.inr rfl) now⟩
      · simp [deleteSubjob, found, DeleteRequest.skips, wholePurge, harmless]
      have ended : Tracks (.live job) .purged state.info
          (updateArrayValues job.state .aeTerminate request.cancelExitCode state.info) :=
        tracks_terminate (exact_.jobsRunning_pos found) (isEnded_of_running harmless) rfl rfl
      exact exact_.put (ArrayState.find_eq_some found)
        ⟨ended.done, ended.outcomes, ended.running, ended.numJobs, ended.created⟩
    · next other =>
      rcases harmless with ended | ⟨purge, transit⟩
      · refine ⟨state, ?_, exact_, fun _ _ found => found⟩
        simp [deleteSubjob, found, DeleteRequest.skips, ended, Bool.eq_false_iff.2 other]
      · -- a subjob in transit is left alone
        refine ⟨state.put index (.live job) state.info, ?_,
          exact_.put (ArrayState.find_eq_some found) (.refl _ _),
          fun _ _ now => ArrayState.find_put found (.inl rfl) now⟩
        simp [deleteSubjob, found, DeleteRequest.skips, purge, attemptDelete, transit, stateCode]

variable (exact_ : Exact state)
  (once : ∀ index ∈ indices, ∀ job, state.find index = some job → request.CountsOnce job)
include exact_ once

/-- The loop over subjobs that are all counted once. -/
theorem foldl_deleteSubjob_exact :
    ∃ after, indices.foldl (fun state index => deleteSubjob request index state) (state, n) =
      (after, n) ∧ Exact after := by
  induction indices generalizing state with
  | nil => exact ⟨state, rfl, exact_⟩
  | cons index indices ih =>
    obtain ⟨after, deleted, still, fewer⟩ :=
      deleteSubjob_exact exact_ (once index mem_cons_self)
    rw [foldl_cons, deleted]
    apply ih still
    intro other mem job found
    exact once other (mem_cons_of_mem _ mem) job (fewer other job found)

/-- A request that counts every subjob it reaches once leaves the counters exact. -/
theorem deleteSubjobs_exact : Exact (deleteSubjobs request indices state) := by
  obtain ⟨after, deleted, still⟩ := foldl_deleteSubjob_exact (n := 0) exact_ once
  unfold deleteSubjobs
  rw [deleted]
  dsimp only
  rw [Int.add_zero, Int.add_zero]
  exact still

end

/-! ## Every run -/

/-- The branches that count wrongly are not taken: a subjob that is run starts, one that has
ended is not aborted or rerun, one that runs goes back to its queue with an obituary, and no
request deletes a subjob that it counts again. -/
def CountsRight (state : ArrayState) : SubjobEvent → Prop
  | .run index started =>
    ∀ job ∈ state.find index, started = true ∨ canRun state.info job = false
  | .sent index accepted =>
    ∀ job ∈ state.find index,
      accepted = true ∨ ¬ (job.state = .running ∧ job.prerun = true)
  | .rerunRequest index _ => ∀ job ∈ state.find index, (Subjob.live job).isEnded = false
  | .requeue index _ => ∀ job ∈ state.find index, job.state ≠ .running
  | .forget index => ∀ job ∈ state.find index, job.state ≠ .running
  | .abort index _ => ∀ job ∈ state.find index, (Subjob.live job).isEnded = false
  | .deleteRange purge signalled cancelExitCode range =>
    ∀ index ∈ rangeIndices range, ∀ job ∈ state.find index,
      DeleteRequest.CountsOnce ⟨false, purge, cancelExitCode, signalled⟩ job
  | .deleteWhole purge signalled cancelExitCode =>
    ∀ index ∈ range state.subjobs.length, ∀ job ∈ state.find index,
      DeleteRequest.CountsOnce ⟨true, purge, cancelExitCode, signalled⟩ job
  | _ => True

instance (state : ArrayState) (event : SubjobEvent) : Decidable (CountsRight state event) := by
  cases event <;> dsimp only [CountsRight] <;> infer_instance

theorem createSubjob_exact (exact_ : Exact state) (index : Nat)
    (newState : JobState) : Exact (createSubjob index newState state) := by
  unfold createSubjob
  split
  · next can =>
    obtain ⟨entry, some, idle⟩ := can
    have ended := countP_set_add Subjob.isEnded (.live { state := newState }) entry
    have running := countP_set_add Subjob.isRunning (.live { state := newState }) entry
    have created := countP_set_add Subjob.isCreated (.live { state := newState }) entry
    rw [isEnded_of_idle idle] at ended
    rw [isRunning_of_idle idle] at running
    simp only [Subjob.isEnded, Subjob.isRunning, Subjob.isCreated, Bool.toNat_true,
      Bool.toNat_false] at ended running created
    obtain ⟨done, outcomes, isRunning, room⟩ := exact_
    refine ⟨?_, outcomes, ?_, ?_⟩ <;> dsimp only <;> omega
  · exact exact_

theorem subjobStep_exact (state : ArrayState) (event : SubjobEvent) (exact_ : Exact state)
    (right : CountsRight state event) : Exact (subjobStep state event) := by
  cases event with
  | create index newState => exact createSubjob_exact exact_ index newState
  | change => exact exact_.onLive fun _ _ _ _ => tracks_changeJob _ _ _
  | queue => exact exact_.onLive fun _ _ _ _ => tracks_queueJob
  | run => exact exact_.onLive fun job found _ room => tracks_runJob room (right job found)
  | sent => exact exact_.onLive fun job found _ _ => tracks_finishSendmom (right job found)
  | terminate => exact exact_.onLive fun _ _ counted _ => tracks_terminateJob _ counted
  | rerun => exact exact_.onLive fun _ _ counted _ => tracks_rerunJob _ counted
  | rerunRequest => exact exact_.onLive fun job found _ _ => tracks_reqRerunjob _ (right job found)
  | requeue => exact exact_.onLive fun job found _ _ => tracks_requeueJob _ (right job found)
  | forget => exact exact_.onLive fun job found _ _ => tracks_forgetJob (right job found)
  | abort =>
    exact exact_.onLive fun job found counted _ => tracks_abortJob _ counted (right job found)
  | finish => exact exact_.onLive fun _ _ _ _ => tracks_finishJob
  | purge => exact exact_.onLive fun _ _ _ _ => tracks_purgeJob
  | deleteRange =>
    dsimp only [subjobStep]
    unfold deleteArrayRange
    split
    · exact deleteSubjobs_exact exact_ right
    · exact exact_
  | deleteWhole => exact deleteSubjobs_exact exact_ right

theorem exact_new (numJobs arraySize : Nat) (slotLimit : Int) :
    Exact (.new numJobs arraySize slotLimit) := by
  constructor <;>
    simp [ArrayState.new, countP_replicate, Subjob.isEnded, Subjob.isRunning, Subjob.isCreated]

/-- Of two subjobs one ends and is then named by a deletion, the other is run again after a
checkpoint, and the array is purged while it runs. -/
def twoSubjobs : List SubjobEvent :=
  [.create 1 .queued, .create 2 .held, .run 1 true, .sent 1 true, .terminate 1 0, .finish 1,
    .deleteRange false true 0 "1".toList, .purge 1, .change 2 .queued false false, .run 2 true,
    .rerunRequest 2 false, .rerun 2 true, .run 2 true, .deleteWhole true true 271]

end Torque.JobArrays
