import Torque.Server.Queue

/-!
# Calls that overlap

`svr_enquejob`, `svr_dequejob` and `svr_setjobstate` are called with the job locked.  Each of
them releases that lock at some places: to wait for the lock of a queue, to wait for the lock
of a list, or to walk through a list of jobs.  Between two such places a call is not
interrupted, and at such a place other calls may go on.

This module cuts the three functions at these places.  A call that has released the lock of
its job is kept with the values it goes on with.  A queue stays locked while the call that
has locked it waits for something else.  Which locks are taken by other threads when they are
tried is decided from outside.

Jobs are not deleted, and the sub-jobs of a heterogeneous job, which are in no list, are not
modelled: a call for one of them is the call for its parent.
-/

namespace Torque.Server

/-- The `JOB_SUBSTATE_*` values that matter to `svr_setjobstate`. -/
inductive Substate where
  | transicm
  | abort
  | complete
  | other (code : Nat)
  deriving DecidableEq

/-- What happens around a call: the locks that are taken when they are tried, and the results
of functions that change no list. -/
structure Surroundings where
  /-- `qu_mutex` -/
  queueBusy : Bool := false
  /-- the lock of `array_summary` -/
  summaryBusy : Bool := false
  /-- the lock of `qu_jobs` -/
  jobsBusy : Bool := false
  /-- the lock of `qu_jobs_array_sum` -/
  sumBusy : Bool := false
  /-- the lock of `alljobs` -/
  alljobsBusy : Bool := false
  /-- the result of `depend_on_que` -/
  depend : Pbse := .none
  /-- the result of `job_save` -/
  save : Pbse := .none

/-- What the calls work on. -/
structure CallData where
  server : ServerState
  substates : Name → Substate
  /-- the names of `svr_queues` -/
  queueNames : List Name
  /-- the queues whose lock is held by a call, or was not released in the end -/
  locked : Name → Bool

/-- A call that has released the lock of its job. -/
inductive Call where
  /-- `svr_enquejob` waits for the queue. -/
  | enqueFind (id quename : Name) (prevJobId : Option Name) (haveReservation beingRecovered : Bool)
  /-- `svr_enquejob` waits in `has_job`. -/
  | enqueSummary (id name : Name)
  /-- `svr_enquejob` walks through `qu_jobs`. -/
  | enqueRank (id name : Name)
  /-- `svr_enquejob` walks through `qu_jobs_array_sum`. -/
  | enqueSum (id name : Name)
  /-- `svr_dequejob` waits in `get_jobs_queue`. -/
  | dequeQueue (id name : Name)
  /-- `svr_dequejob` waits in `remove_job` for `qu_jobs`. -/
  | dequeJobs (id name : Name) (held : Bool)
  /-- `svr_dequejob` waits in `remove_job` for `qu_jobs_array_sum`. -/
  | dequeSum (id name : Name) (held badCt : Bool)
  /-- `svr_dequejob` waits in `remove_job` for `alljobs`; the caller may hold a queue. -/
  | dequeAlljobs (id : Name) (held : Option Name) (badCt : Bool)
  /-- `svr_setjobstate` waits in `get_jobs_queue`. -/
  | setState (id name : Name) (oldstate newstate : JobState) (newsubstate : Substate)
  deriving DecidableEq

/-- A call releases the lock of its job, or returns. -/
inductive Outcome where
  | waits (call : Call)
  | returns (code : Pbse)

namespace CallData

variable (data : CallData) (name : Name)

/-- The lock of a queue is taken. -/
def lock : CallData :=
  { data with locked := Function.update data.locked name true }

/-- The lock of a queue is released. -/
def unlock : CallData :=
  { data with locked := Function.update data.locked name false }

/-- The lock of a queue that the caller held is released by the caller. -/
def unlockHeld (held : Option Name) : CallData :=
  held.elim data data.unlock

/-- The server is changed, the locks are not. -/
def setServer (server : ServerState) : CallData :=
  { data with server := server }

end CallData

/-! ## `svr_enquejob` -/

/-- The job enters `alljobs` and is counted. -/
def ServerState.listAlljobs (server : ServerState) (id : Name) (prevJobId : Option Name) :
    ServerState :=
  if (server.jobs id).jiIsArrayTemplate then server
  else
    { server with
      alljobs := insertAlljobs server.alljobs id prevJobId
      svNumjobs := server.svNumjobs + 1
      svJobstates := countState server.svJobstates (server.jobs id).jiState 1 }

/-- The job enters `array_summary`. -/
def ServerState.listSummary (server : ServerState) (id : Name) : ServerState :=
  if (server.jobs id).inSummary = true ∧ id ∉ server.arraySummary then
    { server with arraySummary := server.arraySummary ++ [id] }
  else server

namespace CallData

variable (data : CallData) (id name : Name) (around : Surroundings)

/-- From the end of `has_job` to the walk through a list. -/
def enqueSummary : CallData × Outcome :=
  let server := data.server.listSummary id
  (data.setServer (server.setJob id ((server.jobs id).setQhdr name)),
    .waits (if (server.jobs id).jiIsArrayTemplate then .enqueSum id name else .enqueRank id name))

/-- From the lock of the queue to the next place where the job's lock is released. -/
def enqueFind (quename : Name) (prevJobId : Option Name) (haveReservation beingRecovered : Bool) :
    CallData × Outcome :=
  match data.server.findQueuebyname quename with
  | none => (data, .returns .unkque)
  | some found =>
    if found.ghostQueue = true ∧ beingRecovered = false then
      (data, .returns .ghostqueue)
    else
      let name := stripServer quename
      let queue := found.useReservation haveReservation
      let job := data.server.jobs id
      let server := data.server.setQueue name queue
      if enqueLimit queue job ≠ .none then
        (data.setServer server, .returns (enqueLimit queue job))
      else
        let listed := (data.setServer (server.listAlljobs id prevJobId)).lock name
        if job.inSummary = true ∧ around.summaryBusy = true then
          (listed, .waits (.enqueSummary id name))
        else listed.enqueSummary id name

/-- The job is put into `qu_jobs`. -/
def enqueRank : CallData × Outcome :=
  match data.server.queues name with
  -- a queue that is locked does not go away
  | none => (data, .returns .unkque)
  | some queue =>
    match insertIntoAlljobsByRank data.server queue.quJobs id with
    | .alreadyInList => (data.unlock name, .returns .none)
    | .jobnotfound => (data.unlock name, .returns .jobnotfound)
    | .inserted list =>
      let job := data.server.jobs id
      let placed := data.setServer (data.server.intoQueue id name queue list)
      if job.inSummary then (placed, .waits (.enqueSum id name))
      else (placed.unlock name, .returns (enqueDepend queue job around.depend))

/-- The job is put into `qu_jobs_array_sum`. -/
def enqueSum : CallData × Outcome :=
  match data.server.queues name with
  | none => (data, .returns .unkque)
  | some queue =>
    let (code, server) := data.server.intoSummary id name queue around.depend
    ((data.setServer server).unlock name, .returns code)

end CallData

/-! ## `svr_dequejob` -/

/-- The job is no longer counted for its user. -/
def Queue.uncount (queue : Queue) (job : Job) : Queue :=
  { queue with
    quUih :=
      if queue.quType = .routePush ∨ job.jiState ≠ .complete then
        decrementQueuedJobs queue.quUih job job.countedInQueue
      else queue.quUih }

/-- The bits of a job that is no longer counted for its user. -/
def Job.uncount (job : Job) (quType : QueueType) : Job :=
  { job with
    countedInQueue :=
      if quType = .routePush ∨ job.jiState ≠ .complete then false else job.countedInQueue
    countedGlobally := if job.jiState ≠ .complete then false else job.countedGlobally }

/-- The job is taken out of `qu_jobs`. -/
def Queue.unlistJob (queue : Queue) (id : Name) (state : JobState) : Queue :=
  if id ∈ queue.quJobs then
    { queue with
      quJobs := queue.quJobs.erase id
      quNumjobs := queue.quNumjobs - 1
      quNjstate := countState queue.quNjstate state (-1) }
  else queue

/-- The job is taken out of `qu_jobs_array_sum`. -/
def Queue.unlistSum (queue : Queue) (id : Name) : Queue :=
  { queue with quJobsArraySum := queue.quJobsArraySum.erase id }

/-- `ji_qhdr` is cleared. -/
def Job.leave (job : Job) : Job :=
  { job with jiQhdr := none }

/-- The job is no longer counted for its user, in the queue and in the server. -/
def ServerState.uncount (server : ServerState) (id name : Name) (queue : Queue) : ServerState :=
  let job := server.jobs id
  { (server.setQueue name (queue.uncount job)).setJob id (job.uncount queue.quType) with
    users :=
      if job.jiState ≠ .complete then
        decrementQueuedJobs server.users job job.countedGlobally
      else server.users }

/-- The job is taken out of `qu_jobs_array_sum` and has no queue any more. -/
def ServerState.leaveQueue (server : ServerState) (id name : Name) (queue : Queue) : ServerState :=
  (server.setQueue name (queue.unlistSum id)).setJob id (server.jobs id).leave

/-- The job is taken out of `alljobs`. -/
def ServerState.unlistAlljobs (server : ServerState) (id : Name) : ServerState :=
  if id ∈ server.alljobs ∧ (server.jobs id).jiIsArrayTemplate = false then
    { server with
      alljobs := server.alljobs.erase id
      svNumjobs := server.svNumjobs - 1
      svJobstates := countState server.svJobstates (server.jobs id).jiState (-1) }
  else { server with alljobs := server.alljobs.erase id }

namespace CallData

variable (data : CallData) (id name : Name) (held : Bool) (badCt : Bool) (around : Surroundings)

/-- `correct_ct`. -/
def correctCt : CallData :=
  data.setServer (data.server.correctCt data.queueNames)

/-- A counter of the server has become negative. -/
def isNegative (server : ServerState) (state : JobState) : Bool :=
  server.svNumjobs < 0 || server.svJobstates state < 0

/-- The end of `svr_dequejob`, when the lock of `alljobs` is held. -/
def dequeAlljobs (held : Option Name) (badCt : Bool) : CallData × Outcome :=
  let counted := decide (id ∈ data.server.alljobs) && !(data.server.jobs id).jiIsArrayTemplate
  let server := data.server.unlistAlljobs id
  let removed := (data.setServer server).unlockHeld held
  if badCt || (counted && isNegative server (data.server.jobs id).jiState) then
    (removed.correctCt, .returns (if server.svrFindJob id then .none else .jobnotfound))
  else (removed, .returns .none)

/-- `remove_job` for `alljobs`. -/
def dequeRest (held : Option Name) (badCt : Bool) : CallData × Outcome :=
  if around.alljobsBusy then (data, .waits (.dequeAlljobs id held badCt))
  else data.dequeAlljobs id held badCt

/-- From the lock of `qu_jobs_array_sum` on. -/
def dequeSum : CallData × Outcome :=
  match data.server.queues name with
  | none => (data, .returns .jobNotInQueue)
  | some queue =>
    let removed := data.setServer (data.server.leaveQueue id name queue)
    if held then removed.dequeRest id around (some name) badCt
    else (removed.unlock name).dequeRest id around none badCt

/-- From the lock of `qu_jobs` on. -/
def dequeJobs : CallData × Outcome :=
  match data.server.queues name with
  | none => (data, .returns .jobNotInQueue)
  | some queue =>
    let state := (data.server.jobs id).jiState
    let unlisted := queue.unlistJob id state
    let badCt := decide (id ∈ queue.quJobs) &&
      (unlisted.quNumjobs < 0 || unlisted.quNjstate state < 0)
    let removed := data.setServer (data.server.setQueue name unlisted)
    if around.sumBusy then (removed, .waits (.dequeSum id name held badCt))
    else removed.dequeSum id name held badCt around

/-- From the lock of the queue on. -/
def dequeQueue : CallData × Outcome :=
  match data.server.queues name with
  | none => (data, .returns .jobNotInQueue)
  | some queue =>
    let uncounted := (data.setServer (data.server.uncount id name queue)).lock name
    if around.jobsBusy then (uncounted, .waits (.dequeJobs id name held))
    else uncounted.dequeJobs id name held around

/-- The begin of `svr_dequejob`. -/
def deque : CallData × Outcome :=
  let job := data.server.jobs id
  if job.jiState = .running ∧ job.jiIsArrayTemplate = false then
    (data, .returns .badstate)
  else
    match job.jiQhdr with
    | none =>
      if held then data.dequeRest id around none false
      else (data, .returns .jobNotInQueue)
    | some name =>
      if held = false ∧ (around.queueBusy = true ∨ data.locked name = true) then
        (data, .waits (.dequeQueue id name))
      else data.dequeQueue id name held around

end CallData

/-! ## `svr_setjobstate` -/

/-- `is_valid_state_transition`. -/
def isValidStateTransition (state : JobState) (substate : Substate) (newstate : JobState)
    (newsubstate : Substate) : Bool :=
  !(state = .complete && newstate = .exiting) && !(substate = .complete && newsubstate = .abort)

/-- A job leaves one state and enters another. -/
def moveState (counts : JobState → Int) (oldstate newstate : JobState) : JobState → Int :=
  countState (countState counts oldstate (-1)) newstate 1

/-- The queue of a job that changes its state. -/
def Queue.moveJob (queue : Queue) (job : Job) (newstate : JobState) : Queue :=
  { queue with
    quNjstate := moveState queue.quNjstate job.jiState newstate
    quUih :=
      if job.jiState ≠ .transit ∧ job.jiState ≠ .complete ∧ newstate = .complete then
        decrementQueuedJobs queue.quUih job job.countedInQueue
      else queue.quUih }

/-- The bits of a job that changes its state; `queued` says that it has a queue. -/
def Job.moveJob (job : Job) (newstate : JobState) (queued : Bool) : Job :=
  { job with
    countedInQueue :=
      if queued = true ∧ job.jiState ≠ .transit ∧ job.jiState ≠ .complete ∧ newstate = .complete
      then false else job.countedInQueue
    countedGlobally := if newstate = .complete then false else job.countedGlobally }

namespace CallData

variable (data : CallData) (id : Name) (newstate : JobState) (newsubstate : Substate)
  (around : Surroundings)

/-- `set_jobstate_basic`, and the job is saved. -/
def setJobstateBasic : CallData × Outcome :=
  ({ data with
      server := data.server.setJob id
        { data.server.jobs id with
          jiState := newstate
          substateComplete := decide (newsubstate = .complete) }
      substates := Function.update data.substates id newsubstate }, .returns around.save)

variable (pque : Option Name)

/-- The counters of the queue are changed, if the state still does. -/
def moveInQueue : CallData :=
  let job := data.server.jobs id
  if job.jiState = newstate ∨ job.jiIsArrayTemplate = true then data
  else
    let server :=
      { data.server.setJob id (job.moveJob newstate pque.isSome) with
        users :=
          if newstate = .complete then
            decrementQueuedJobs data.server.users job job.countedGlobally
          else data.server.users }
    match pque with
    | none => data.setServer server
    | some name =>
      match data.server.queues name with
      | none => data.setServer server
      | some queue => data.setServer (server.setQueue name (queue.moveJob job newstate))

/-- From the lock of the queue on. -/
def setQueueState : CallData × Outcome :=
  (data.moveInQueue id newstate pque).setJobstateBasic id newstate newsubstate around

/-- The counters of the server are changed. -/
def moveInServer : CallData :=
  let job := data.server.jobs id
  if job.jiIsArrayTemplate then data
  else
    data.setServer
      { data.server with
        svJobstates := moveState data.server.svJobstates job.jiState newstate }

/-- The begin of `svr_setjobstate`. -/
def setState (held : Bool) : CallData × Outcome :=
  let job := data.server.jobs id
  if isValidStateTransition job.jiState (data.substates id) newstate newsubstate = false then
    -- `PBSE_BAD_JOB_STATE_TRANSITION`
    (data, .returns (.other 15157))
  else if data.substates id = .transicm ∨ job.jiState = newstate then
    data.setJobstateBasic id newstate newsubstate around
  else
    let moved := data.moveInServer id newstate
    match job.jiQhdr with
    | none => moved.setQueueState id newstate newsubstate around none
    | some name =>
      if held = false ∧ (around.queueBusy = true ∨ data.locked name = true) then
        (moved, .waits (.setState id name job.jiState newstate newsubstate))
      else moved.setQueueState id newstate newsubstate around (some name)

end CallData

/-! ## Steps -/

/-- The server with the calls in progress and the codes that calls have returned. -/
structure CallSystem where
  data : CallData
  calls : List Call
  returned : List Pbse

/-- A call is made, or a call goes on.  `held` says that the caller holds the queue of the
job.  The caller of `svr_enquejob` has set `ji_queue`. -/
inductive CallEvent where
  | enque (id quename : Name) (prevJobId : Option Name) (haveReservation beingRecovered : Bool)
  | deque (id : Name) (held : Bool) (around : Surroundings)
  | setState (id : Name) (newstate : JobState) (newsubstate : Substate) (held : Bool)
      (around : Surroundings)
  | resume (index : Nat) (around : Surroundings)

/-- A call waits for a queue that is locked. -/
def CallData.isBlocked (data : CallData) : Call → Bool
  | .enqueFind _ quename _ _ _ =>
    (data.server.findQueuebyname quename).isSome && data.locked (stripServer quename)
  | .dequeQueue _ name => data.locked name
  | .setState _ name _ _ _ => data.locked name
  | _ => false

/-- The caller holds the queue of the job, so that nobody else does. -/
def CallData.canHold (data : CallData) (id : Name) (held : Bool) : Bool :=
  !(held && (data.server.jobs id).jiQhdr.any data.locked)

/-- A call goes on.  `get_jobs_queue` and `remove_job` look for the job when they have waited,
and the lock of the queue is not released if it is gone. -/
def CallData.resume (data : CallData) (around : Surroundings) : Call → CallData × Outcome
  | .enqueFind id quename prevJobId haveReservation beingRecovered =>
    data.enqueFind id around quename prevJobId haveReservation beingRecovered
  | .enqueSummary id name => data.enqueSummary id name
  | .enqueRank id name => data.enqueRank id name around
  | .enqueSum id name => data.enqueSum id name around
  | .dequeQueue id name =>
    if data.server.svrFindJob id then data.dequeQueue id name false around
    else (data, .returns .jobnotfound)
  | .dequeJobs id name held =>
    if (data.server.queues name).any fun queue => id ∈ queue.quJobs then
      data.dequeJobs id name held around
    else (data.unlockHeld (if held then some name else none), .returns .jobnotfound)
  | .dequeSum id name held badCt =>
    if (data.server.queues name).any fun queue => id ∈ queue.quJobsArraySum then
      data.dequeSum id name held badCt around
    else (data.unlockHeld (if held then some name else none), .returns .jobnotfound)
  | .dequeAlljobs id held badCt =>
    if id ∈ data.server.alljobs then data.dequeAlljobs id held badCt
    else (data.unlockHeld held, .returns .jobnotfound)
  | .setState id name _ newstate newsubstate =>
    if data.server.svrFindJob id then
      data.setQueueState id newstate newsubstate around (some name)
    else (data, .returns .unkque)

variable (system : CallSystem)

/-- The calls in progress and the codes after a call has run to its next stop. -/
def CallSystem.settle (calls : List Call) : CallData × Outcome → CallSystem
  | (data, .waits call) => { system with data := data, calls := calls ++ [call] }
  | (data, .returns code) =>
    { data := data, calls := calls, returned := system.returned ++ [code] }

/-- One step. -/
def callStep : CallEvent → CallSystem
  | .enque id quename prevJobId haveReservation beingRecovered =>
    let server := system.data.server
    system.settle system.calls
      (system.data.setServer (server.setJob id { server.jobs id with jiQueue := quename }),
        .waits (.enqueFind id quename prevJobId haveReservation beingRecovered))
  | .deque id held around =>
    if system.data.canHold id held then
      system.settle system.calls (system.data.deque id held around)
    else system
  | .setState id newstate newsubstate held around =>
    if system.data.canHold id held then
      system.settle system.calls (system.data.setState id newstate newsubstate around held)
    else system
  | .resume index around =>
    match system.calls[index]? with
    | none => system
    | some call =>
      if system.data.isBlocked call then system
      else system.settle (system.calls.eraseIdx index) (system.data.resume around call)

/-- A queue without jobs. -/
def Queue.emptied (queue : Queue) : Queue :=
  { queue with
    quNumjobs := 0
    quNjstate := fun _ => 0
    quUih := fun _ => 0
    quJobs := []
    quJobsArraySum := [] }

/-- A server with some queues and no jobs in them, before any call. -/
def CallSystem.new (queues : List (Name × Queue)) (jobs : Name → Job)
    (substates : Name → Substate) : CallSystem where
  data := {
    server := {
      queues := fun name => (queues.lookup name).map Queue.emptied
      jobs := fun id => { jobs id with
        jiQhdr := none
        countedInQueue := false
        countedGlobally := false }
      alljobs := []
      arraySummary := []
      svNumjobs := 0
      svJobstates := fun _ => 0
      users := fun _ => 0
      queueRank := 0 }
    substates := substates
    queueNames := queues.map Prod.fst
    locked := fun _ => false }
  calls := []
  returned := []

end Torque.Server
