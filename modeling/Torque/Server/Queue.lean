import Torque.Server.Types
import Torque.Structure.Insertion
import Torque.Text.Decimal

/-!
# Queues and their jobs

The server keeps every job in `alljobs`, each queue keeps its own jobs in
`qu_jobs`, and the counters beside those lists say how many there are.  Array
templates are no jobs of their own: they stand in `array_summary` and in
`qu_jobs_array_sum` together with the jobs that are no subjobs.

This module models putting a job into its queue (`svr_enquejob`), taking it out
(`svr_dequejob`) and the check whether a queue admits it (`svr_chkque`).  The
checks that look at resources, access lists and user names are inputs, and so
is the result of registering dependencies.  A job structure is never freed
here: nobody deletes the job while it is handled.
-/

namespace Torque.Server

open Torque.Insertion Torque.Text Function

/-! ## Jobs -/

/-- `MAXPATHLEN`, the size of the buffer an array request is copied to. -/
def maxpathlen : Nat := 4096

/-- The number of subjobs one token of an array request asks for; `none` for a
range that runs backwards. -/
def tokenJobs (token : List Char) : Option Int :=
  if token.contains '-' then
    let start := atoi token
    let stop := atoi ((token.dropWhile (· != '-')).drop 1)
    if stop < start then none else some (stop - start + 1)
  else
    some 1

/-- `num_array_jobs`. -/
def numArrayJobs (reqStr : List Char) : Int :=
  match (tokens (· == ',') (reqStr.take (maxpathlen - 1))).mapM tokenJobs with
  | some counts => counts.sum
  | none => -1

/-- The job fields that queues work with. -/
structure Job where
  jiState : JobState
  /-- the substate is `JOB_SUBSTATE_COMPLETE` -/
  substateComplete : Bool
  /-- `JOB_ATR_job_array_request`, if set -/
  jobArrayRequest : Option (List Char)
  jiArraystructid : Name
  jobOwner : Name
  jiQueue : Name
  jiDestin : Name
  /-- `ji_qhdr`, as the name of the queue it points to -/
  jiQhdr : Option Name
  qrank : Int
  qrankSet : Bool
  dependSet : Bool
  /-- the two bits of `ji_queue_counted` -/
  countedInQueue : Bool
  countedGlobally : Bool
  jiLastdest : Nat
  deriving DecidableEq, Repr

/-- `ji_is_array_template`: set exactly for jobs with an array request. -/
def Job.jiIsArrayTemplate (job : Job) : Bool :=
  job.jobArrayRequest.isSome

/-- The job is listed with the array templates. -/
def Job.inSummary (job : Job) : Bool :=
  job.jiIsArrayTemplate || decide (job.jiArraystructid = [])

/-- The user a job is counted for. -/
def Job.user (job : Job) : Name :=
  stripServer job.jobOwner

/-- `count_jobs_submitted`, an unsigned number. -/
def countJobsSubmitted (job : Job) : Nat :=
  match job.jobArrayRequest with
  | some request => (numArrayJobs request % 2 ^ 32).toNat
  | none => 1

theorem countJobsSubmitted_of_job {job : Job} (simple : job.jiIsArrayTemplate = false) :
    countJobsSubmitted job = 1 := by
  rw [countJobsSubmitted, Option.isNone_iff_eq_none.mp (Option.isSome_eq_false_iff.mp simple)]

/-! ## Queues -/

/-- The types of queues. -/
inductive QueueType where
  | unset
  | execution
  | routePush
  | routePull
  deriving DecidableEq, Repr

/-- `struct pbs_queue`. -/
structure Queue where
  quType : QueueType
  enabled : Bool
  fromRouteOnly : Bool
  ghostQueue : Bool
  /-- `QA_ATR_MaxJobs`, if set -/
  maxJobs : Option Int
  /-- `QA_ATR_MaxUserJobs`, if set -/
  maxUserJobs : Option Int
  quReservedJobs : Int
  quNumjobs : Int
  quNjstate : JobState → Int
  /-- `num_jobs_queued` of each user in `qu_uih` -/
  quUih : Name → Nat
  quJobs : List Name
  quJobsArraySum : List Name

/-- The job lists and counters of the server. -/
structure ServerState where
  queues : Name → Option Queue
  jobs : Name → Job
  alljobs : List Name
  arraySummary : List Name
  svNumjobs : Int
  svJobstates : JobState → Int
  users : Name → Nat
  queueRank : Int

/-- `find_queuebyname`. -/
def ServerState.findQueuebyname (server : ServerState) (quename : Name) : Option Queue :=
  server.queues (stripServer quename)

variable (server : ServerState) (id : Name)

/-- `svr_find_job`, for a job that is not being deleted. -/
def ServerState.svrFindJob : Bool :=
  decide (id ∈ server.alljobs) || decide (id ∈ server.arraySummary)

/-- One queue is changed. -/
def ServerState.setQueue (server : ServerState) (name : Name) (queue : Queue) : ServerState :=
  { server with queues := update server.queues name (some queue) }

theorem update_some_cases {β : Type} {entries : Name → Option β} {name other : Name}
    {entry found : β} (at_other : update entries name (some entry) other = some found) :
    (other = name ∧ found = entry) ∨ (other ≠ name ∧ entries other = some found) := by
  by_cases same : other = name
  · subst same
    rw [update_self] at at_other
    exact .inl ⟨rfl, (Option.some.inj at_other).symm⟩
  · rw [update_of_ne same] at at_other
    exact .inr ⟨same, at_other⟩

/-- What holds of all entries still does when one of them changes. -/
theorem forall_update_some {β : Type} {entries : Name → Option β} {name : Name} {entry : β}
    {p : Name → β → Prop} (here : p name entry)
    (others : ∀ other found, entries other = some found → p other found) :
    ∀ other found, update entries name (some entry) other = some found → p other found := by
  intro other found at_other
  rcases update_some_cases at_other with ⟨rfl, rfl⟩ | ⟨-, at_other⟩
  · exact here
  · exact others other found at_other

/-- One job is changed. -/
def ServerState.setJob (job : Job) : ServerState :=
  { server with jobs := update server.jobs id job }

/-- `count_queued_jobs` for all users. -/
def Queue.countQueuedJobs (queue : Queue) : Int :=
  queue.quNumjobs - queue.quNjstate .complete

/-- `count_queued_jobs` for one user. -/
def Queue.countQueuedJobsOf (queue : Queue) (user : Name) : Int :=
  queue.quUih user

/-- One more or less in one state. -/
def countState (counts : JobState → Int) (state : JobState) (change : Int) : JobState → Int :=
  update counts state (counts state + change)

/-! ### The counts of users -/

variable (table : Name → Nat)

/-- The counts of a table after `increment_queued_jobs`; `counted` is the bit
of the job for this table. -/
def incrementQueuedJobs (job : Job) (counted : Bool) : Name → Nat :=
  if job.jiState = .complete ∨ counted then table
  else update table job.user (table job.user + countJobsSubmitted job)

/-- The job's bit after `increment_queued_jobs`. -/
def incrementCounted (job : Job) (counted : Bool) : Bool :=
  if job.jiState = .complete then counted else true

/-- The counts of a table after `decrement_queued_jobs`, which also clears the
job's bit.  A count of zero stays. -/
def decrementQueuedJobs (job : Job) (counted : Bool) : Name → Nat :=
  if counted then update table job.user (table job.user - 1) else table

/-! ## Taking a job out of its queue -/

/-- A queue that a job was taken out of. -/
def Queue.dequeued (queue : Queue) (id : Name) (job : Job) : Queue :=
  { queue with
    quUih :=
      if queue.quType = .routePush ∨ job.jiState ≠ .complete then
        decrementQueuedJobs queue.quUih job job.countedInQueue
      else queue.quUih
    quNumjobs := if id ∈ queue.quJobs then queue.quNumjobs - 1 else queue.quNumjobs
    quNjstate :=
      if id ∈ queue.quJobs then countState queue.quNjstate job.jiState (-1) else queue.quNjstate
    quJobs := queue.quJobs.erase id
    quJobsArraySum := queue.quJobsArraySum.erase id }

/-- A job that was taken out of a queue of the given type. -/
def Job.dequeued (job : Job) (quType : QueueType) : Job :=
  { job with
    jiQhdr := none
    countedInQueue :=
      if quType = .routePush ∨ job.jiState ≠ .complete then false else job.countedInQueue
    countedGlobally := if job.jiState ≠ .complete then false else job.countedGlobally }

/-- The server when the job has been taken out of its queue. -/
def ServerState.dequeued (name : Name) (queue : Queue) : ServerState :=
  let job := server.jobs id
  let counted := decide (id ∈ server.alljobs) && !job.jiIsArrayTemplate
  { server with
    queues := update server.queues name (some (queue.dequeued id job))
    jobs := update server.jobs id (job.dequeued queue.quType)
    alljobs := server.alljobs.erase id
    svNumjobs := if counted then server.svNumjobs - 1 else server.svNumjobs
    svJobstates :=
      if counted then countState server.svJobstates job.jiState (-1) else server.svJobstates
    users :=
      if job.jiState ≠ .complete then
        decrementQueuedJobs server.users job job.countedGlobally
      else server.users }

/-- `correct_ct`: all counters are set to what the lists of the queues say. -/
def ServerState.correctCt (queueNames : List Name) : ServerState :=
  let lists := (queueNames.filterMap server.queues).map Queue.quJobs
  let inState (list : List Name) (state : JobState) : Int :=
    list.countP fun id => (server.jobs id).jiState = state
  { server with
    queues := fun name => (server.queues name).map fun queue =>
      { queue with
        quNumjobs := queue.quJobs.length
        quNjstate := inState queue.quJobs }
    svNumjobs := lists.flatten.length
    svJobstates := inState lists.flatten }

/-- `bad_ct`: a counter that is lowered when the job leaves the queue and the server becomes
negative. -/
def ServerState.badCt (queue : Queue) : Bool :=
  let state := (server.jobs id).jiState
  (decide (id ∈ queue.quJobs) && (queue.quNumjobs - 1 < 0 || queue.quNjstate state - 1 < 0)) ||
    (decide (id ∈ server.alljobs) && !(server.jobs id).jiIsArrayTemplate &&
      (server.svNumjobs - 1 < 0 || server.svJobstates state - 1 < 0))

/-- `svr_dequejob`, called without the queue's lock; `queueNames` are all queues.  After a recount
the job is looked up again, and a subjob is not found any more. -/
def svrDequejob (queueNames : List Name) : Pbse × ServerState :=
  let job := server.jobs id
  if job.jiState = .running ∧ job.jiIsArrayTemplate = false then
    (.badstate, server)
  else
    match job.jiQhdr with
    | none => (.jobNotInQueue, server)
    | some name =>
      match server.queues name with
      | none => (.jobNotInQueue, server)
      | some queue =>
        let removed := server.dequeued id name queue
        if server.badCt id queue then
          (if removed.svrFindJob id then .none else .jobnotfound, removed.correctCt queueNames)
        else (.none, removed)

/-! ## Putting a job into its queue -/

/-- `array_jobs` of `svr_enquejob`: the jobs an array template stands for, but
for one. -/
def enqueArrayJobs (job : Job) : Int :=
  match job.jobArrayRequest with
  | some request => if 0 < numArrayJobs request then numArrayJobs request - 1
      else numArrayJobs request
  | none => 0

/-- The second check of the limits, in `svr_enquejob`. -/
def enqueLimit (queue : Queue) (job : Job) : Pbse :=
  if queue.maxJobs.any fun limit =>
      decide (limit ≤ queue.countQueuedJobs + enqueArrayJobs job + queue.quReservedJobs) then
    .maxqued
  else if queue.maxUserJobs.any fun limit =>
      decide (limit ≤ queue.countQueuedJobsOf job.user + queue.quReservedJobs) then
    .maxuserqued
  else
    .none

/-- `alljobs.insert`, or `alljobs.insert_after` when the job follows another
one.  Neither changes the list if it fails. -/
def insertAlljobs (alljobs : List Name) (id : Name) (prevJobId : Option Name) : List Name :=
  match prevJobId with
  | none => if id ∈ alljobs then alljobs else alljobs ++ [id]
  | some prev => if prev ∈ alljobs then insertBehind (· == prev) id alljobs else alljobs

/-- The server's own lists and counters when a job enters. -/
def ServerState.listJob (prevJobId : Option Name) : ServerState :=
  let job := server.jobs id
  { server with
    alljobs :=
      if job.jiIsArrayTemplate then server.alljobs
      else insertAlljobs server.alljobs id prevJobId
    svNumjobs := if job.jiIsArrayTemplate then server.svNumjobs else server.svNumjobs + 1
    svJobstates :=
      if job.jiIsArrayTemplate then server.svJobstates
      else countState server.svJobstates job.jiState 1
    arraySummary :=
      if job.inSummary = true ∧ id ∉ server.arraySummary then server.arraySummary ++ [id]
      else server.arraySummary }

/-- Result of `insert_into_alljobs_by_rank`. -/
inductive RankInsert where
  | alreadyInList
  | jobnotfound
  | inserted (list : List Name)
  deriving DecidableEq, Repr

/-- Another job has a lower queue rank. -/
def ServerState.lowerRank (other : Name) : Bool :=
  decide ((server.jobs other).qrank < (server.jobs id).qrank)

/-- `insert_into_alljobs_by_rank`: from the end of the list to the first job of
lower rank. -/
def insertIntoAlljobsByRank (server : ServerState) (list : List Name) (id : Name) : RankInsert :=
  if id ∈ list.rtakeWhile (fun other => !server.lowerRank id other) then .alreadyInList
  else if server.svrFindJob id then .inserted (insertBehind (server.lowerRank id) id list)
  else .jobnotfound

/-- A queue that a job was put into. -/
def Queue.enqueued (queue : Queue) (job : Job) (quJobs : List Name) : Queue :=
  { queue with
    quJobs := quJobs
    quNumjobs := queue.quNumjobs + 1
    quNjstate := countState queue.quNjstate job.jiState 1
    quUih := incrementQueuedJobs queue.quUih job job.countedInQueue }

/-- A job that was counted in its queue and by the server. -/
def Job.counted (job : Job) : Job :=
  { job with
    countedInQueue := incrementCounted job job.countedInQueue
    countedGlobally := incrementCounted job job.countedGlobally }

section

variable (name : Name) (queue : Queue)

/-- The job is put into `qu_jobs`, with all counts. -/
def ServerState.intoQueue (quJobs : List Name) : ServerState :=
  let job := server.jobs id
  { server with
    queues := update server.queues name (some (queue.enqueued job quJobs))
    jobs := update server.jobs id job.counted
    users := incrementQueuedJobs server.users job job.countedGlobally }

/-- What happens at the end of `svr_enquejob` according to the type of the
queue; `depend` is the result of `depend_on_que`. -/
def enqueDepend (queue : Queue) (job : Job) (depend : Pbse) : Pbse :=
  if queue.quType = .execution ∧ job.jiState ≠ .complete ∧ job.substateComplete = false ∧
      job.dependSet = true then
    match depend with
    | .none => .none
    | .jobnotfound => .jobnotfound
    | _ => .badDepend
  else
    .none

/-- The job is put into `qu_jobs_array_sum` if it belongs there. -/
def ServerState.intoSummary (depend : Pbse) : Pbse × ServerState :=
  let job := server.jobs id
  if job.inSummary then
    match insertIntoAlljobsByRank server queue.quJobsArraySum id with
    | .alreadyInList => (.none, server)
    | .jobnotfound => (.jobnotfound, server)
    | .inserted list =>
      (enqueDepend queue job depend,
        server.setQueue name { queue with quJobsArraySum := list })
  else
    (enqueDepend queue job depend, server)

/-- `ji_qhdr` is set. -/
def Job.setQhdr (job : Job) (name : Name) : Job :=
  { job with jiQhdr := some name }

/-- The part of `svr_enquejob` behind the checks. -/
def ServerState.placeJob (prevJobId : Option Name) (depend : Pbse) : Pbse × ServerState :=
  let listed := (server.listJob id prevJobId).setJob id ((server.jobs id).setQhdr name)
  if (server.jobs id).jiIsArrayTemplate then
    listed.intoSummary id name queue depend
  else
    match insertIntoAlljobsByRank listed queue.quJobs id with
    | .alreadyInList => (.none, listed)
    | .jobnotfound => (.jobnotfound, listed)
    | .inserted list =>
      (listed.intoQueue id name queue list).intoSummary id name
        (queue.enqueued (server.jobs id) list) depend

end

/-- The queue when a reservation is used up. -/
def Queue.useReservation (queue : Queue) (haveReservation : Bool) : Queue :=
  if haveReservation then { queue with quReservedJobs := queue.quReservedJobs - 1 } else queue

/-- `svr_enquejob`. -/
def svrEnquejob (prevJobId : Option Name) (haveReservation beingRecovered : Bool) (depend : Pbse) :
    Pbse × ServerState :=
  let job := server.jobs id
  match server.findQueuebyname job.jiQueue with
  | none => (.unkque, server)
  | some found =>
    if found.ghostQueue = true ∧ beingRecovered = false then
      (.ghostqueue, server)
    else
      let name := stripServer job.jiQueue
      let queue := found.useReservation haveReservation
      let server := server.setQueue name queue
      if enqueLimit queue job ≠ .none then
        (enqueLimit queue job, server)
      else
        server.placeJob id name queue prevJobId depend

/-! ## Admission -/

/-- `MOVE_TYPE_*`. -/
inductive MoveType where
  | move
  | route
  | mgrMv
  | order
  deriving DecidableEq, Repr

/-- Result of the check of a user or group list. -/
inductive AclCheck where
  | passed
  | perm
  /-- failed, but the other list may admit the job -/
  | failed
  deriving DecidableEq, Repr

/-- Results of the checks of `svr_chkque` that look at data outside the model. -/
structure Checks where
  hasConflictingResourceRequests : Bool
  executionUidAndGid : Pbse
  siteAclCheck : Bool
  unknownResource : Bool
  unknownAttribute : Bool
  disallowedTypes : Pbse
  groupAcl : AclCheck
  completeReqLimits : Pbse
  hostAcl : Pbse
  userAcl : AclCheck
  resourceLimits : Pbse
  deriving DecidableEq, Repr

/-- Every check passes. -/
def Checks.pass : Checks :=
  ⟨false, .none, false, false, false, .none, .passed, .none, .none, .passed, .none⟩

/-- The first code that is not `PBSE_NONE`. -/
def firstError : List Pbse → Pbse
  | [] => .none
  | .none :: rest => firstError rest
  | code :: _ => code

/-- `array_jobs` of `check_queue_job_limit`. -/
def chkqueArrayJobs (job : Job) : Int :=
  match job.jobArrayRequest with
  | some request => if 0 < numArrayJobs request then numArrayJobs request - 1 else 0
  | none => 0

variable (queue : Queue) (job : Job) (checks : Checks)

/-- `check_queue_job_limit`. -/
def checkQueueJobLimit : Pbse :=
  if queue.maxJobs.any fun limit =>
      decide (limit ≤ queue.countQueuedJobs + chkqueArrayJobs job + queue.quReservedJobs) then
    .maxqued
  else if queue.maxUserJobs.any fun limit =>
      decide (0 ≤ limit ∧
        limit ≤ queue.countQueuedJobsOf job.user + chkqueArrayJobs job + queue.quReservedJobs) then
    .maxuserqued
  else
    checks.completeReqLimits

/-- `check_queue_enabled`. -/
def checkQueueEnabled : Pbse :=
  if queue.enabled then .none else .qunoenb

/-- `check_local_route`. -/
def checkLocalRoute (mtype : MoveType) : Pbse :=
  if queue.fromRouteOnly = true ∧ mtype = .move then .qacess else .none

/-- The checks for an execution queue. -/
def chkqueExecution : Pbse :=
  firstError [checks.executionUidAndGid, if checks.siteAclCheck then .perm else .none,
    if checks.unknownResource then .unkresc else .none,
    if checks.unknownAttribute then .noattr else .none, checks.disallowedTypes,
    if checks.groupAcl = .perm then .perm else .none]

/-- `svr_chkque`: may the job enter the queue? -/
def svrChkque (mtype : MoveType) (checks : Checks) : Pbse :=
  firstError [
    if checks.hasConflictingResourceRequests then .rescConflict else .none,
    if queue.quType = .execution then chkqueExecution checks else .none,
    -- checks 2 and 3 are bypassed for a move by manager or qorder
    if mtype ≠ .mgrMv ∧ mtype ≠ .order then
      firstError [checkQueueEnabled queue, checkQueueJobLimit queue job checks,
        checkLocalRoute queue mtype]
    else .none,
    -- checks 4, 5 and 6 are bypassed for a move by manager
    if mtype ≠ .mgrMv then
      firstError [checks.hostAcl, if checks.userAcl = .perm then .perm else .none,
        if queue.quType = .execution ∧ checks.groupAcl = .failed ∧ checks.userAcl = .failed
          then .perm else .none,
        checks.resourceLimits]
    else .none]

end Torque.Server
