import Torque.Numa.Allocation

/-!
# What the fifo scheduler knows, and whether a job may run

The scheduler asks the server for its queues, jobs and nodes, and keeps them for one cycle.  Jobs,
queues and fair share groups are shared through pointers, so that the records live in a store and
the arrays hold references to them.

`is_ok_to_run_job` runs through a list of checks.  The answers of the server to `pbs_rescquery`
come from outside.  Load averages, shares and tokens are floating point numbers.
-/

namespace Torque.Scheduler

open Torque.Numa

/-! ## The records -/

/-- A `job_info *`. -/
abbrev JobRef := Nat

/-- A `queue_info *`. -/
abbrev QueueRef := Nat

/-- A `group_info *`. -/
abbrev GroupRef := Nat

/-- `INFINITY_VAL`. -/
def infinityVal : Int := -2

/-- `UNSPECIFIED`. -/
def unspecified : Int := -1

/-- The resources that the scheduler looks for by name, and any other. -/
inductive ResourceName where
  | mem
  | ncpus
  | nodect
  | nodes
  | walltime
  | arch
  | host
  | cput
  | other (name : List Char)
  deriving DecidableEq

/-- `resource_req`. -/
structure ResourceReq where
  name : ResourceName
  amount : Int
  resStr : List Char
  deriving DecidableEq

/-- `resource`. -/
structure Resource where
  name : ResourceName
  avail : Int
  max : Int
  assigned : Int
  deriving DecidableEq

/-- `token`. -/
structure Token (F : Type) where
  identifier : List Char
  count : F

/-- `node_info`. -/
structure NodeInfo (F : Type) where
  isFree : Bool
  name : List Char
  arch : List Char
  physmem : Int
  maxLoad : F
  loadave : F

/-- `group_info`, the share of a user. -/
structure GroupInfo (F : Type) where
  percentage : F
  tempUsage : Int

/-- `job_info`.  The request for tokens is kept as `get_token` reads it. -/
structure JobInfo (F : Type) where
  isQueued : Bool
  isRunning : Bool
  canNotRun : Bool
  canNeverRun : Bool
  account : List Char
  group : List Char
  queue : QueueRef
  resreq : List ResourceReq
  tokens : Option (Token F)
  ginfo : GroupRef

/-- The counters of `state_count` that change when a job is run. -/
structure StateCount where
  running : Int
  queued : Int
  deriving DecidableEq

/-- `queue_info`. -/
structure QueueInfo where
  sc : StateCount
  maxRun : Int
  maxUserRun : Int
  maxGroupRun : Int
  qres : List Resource
  jobs : List JobRef
  runningJobs : List JobRef

/-- `server_info`, with the jobs, queues and groups that it points to. -/
structure ServerInfo (F : Type) where
  res : List Resource
  maxRun : Int
  maxUserRun : Int
  maxGroupRun : Int
  sc : StateCount
  queues : List QueueRef
  jobs : List JobRef
  runningJobs : List JobRef
  timesharingNodes : Option (List (NodeInfo F))
  tokens : List (Token F)
  jobInfo : JobRef → JobInfo F
  queueInfo : QueueRef → QueueInfo
  groupInfo : GroupRef → GroupInfo F

/-- The queue of a job. -/
def ServerInfo.queueOf {F : Type} (sinfo : ServerInfo F) (job : JobRef) : QueueInfo :=
  sinfo.queueInfo (sinfo.jobInfo job).queue

/-- `timegap`. -/
structure TimeGap where
  start : Int
  stop : Int
  deriving DecidableEq

/-- What `cstat` holds for the cycle, and the next dedicated time, `conf.ded_time[0]`. -/
structure Policy where
  roundRobin : Bool
  byQueue : Bool
  strictFifo : Bool
  fairShare : Bool
  loadBalancing : Bool
  loadBalancingRr : Bool
  isDedTime : Bool
  currentTime : Int
  starvingJob : Option JobRef
  dedTime : TimeGap
  deriving DecidableEq

/-- The codes that `is_ok_to_run_job` returns for a job that is refused, and `NOT_QUEUED`. -/
inductive FailCode where
  /-- An index into `res_to_check` -/
  | resource (index : Nat)
  | schdError
  | notQueued
  | queueJobLimitReached
  | serverJobLimitReached
  | serverUserLimitReached
  | queueUserLimitReached
  | serverGroupLimitReached
  | queueGroupLimitReached
  | crossDedTimeBoundry
  | noAvailableNode
  | notEnoughNodesAvail
  | jobStarving
  | serverTokenUtilization
  deriving DecidableEq

/-- The answer to `pbs_rescquery`: its return code, and the nodes that are available. -/
structure RescQuery where
  rc : Int
  available : Int
  deriving DecidableEq

/-! ## The checks

A check returns nothing if the job passes it. -/

/-- `find_resource_req`. -/
def findResourceReq (reqlist : List ResourceReq) (name : ResourceName) : Option ResourceReq :=
  reqlist.find? (·.name = name)

/-- `find_resource`. -/
def findResource (reslist : List Resource) (name : ResourceName) : Option Resource :=
  reslist.find? (·.name = name)

section

variable {F : Type} {code : FailCode} (policy : Policy) (query : RescQuery) (sinfo : ServerInfo F)
  (jinfo : JobInfo F) (job : JobRef)

/-- `check_server_max_run`, `check_queue_max_run`. -/
def checkMaxRun (maxRun : Int) (sc : StateCount) (code : FailCode) : Option FailCode :=
  if maxRun = infinityVal then none else if sc.running < maxRun then none else some code

section

variable (sinfo : ServerInfo F)

/-- `check_server_max_run`. -/
def checkServerMaxRun : Option FailCode :=
  checkMaxRun sinfo.maxRun sinfo.sc .serverJobLimitReached

variable (qinfo : QueueInfo)

/-- `check_queue_max_run`. -/
def checkQueueMaxRun : Option FailCode :=
  checkMaxRun qinfo.maxRun qinfo.sc .queueJobLimitReached

variable (jobs : List JobRef)

/-- `count_by_user`. -/
def countByUser (user : List Char) : Int :=
  jobs.countP fun job => (sinfo.jobInfo job).account = user

/-- `count_by_group`. -/
def countByGroup (group : List Char) : Int :=
  jobs.countP fun job => (sinfo.jobInfo job).group = group

/-- The checks of the limits for users and groups. -/
def checkMaxCount (maxCount count : Int) (code : FailCode) : Option FailCode :=
  if maxCount = infinityVal ∨ count < maxCount then none else some code

variable (account : List Char)

/-- `check_server_max_user_run`. -/
def checkServerMaxUserRun : Option FailCode :=
  checkMaxCount sinfo.maxUserRun (countByUser sinfo sinfo.runningJobs account)
    .serverUserLimitReached

variable (group : List Char)

/-- `check_server_max_group_run`. -/
def checkServerMaxGroupRun : Option FailCode :=
  checkMaxCount sinfo.maxGroupRun (countByGroup sinfo sinfo.runningJobs group)
    .serverGroupLimitReached

/-- `check_queue_max_user_run`. -/
def checkQueueMaxUserRun : Option FailCode :=
  checkMaxCount qinfo.maxUserRun (countByUser sinfo qinfo.runningJobs account)
    .queueUserLimitReached

/-- `check_queue_max_group_run`. -/
def checkQueueMaxGroupRun : Option FailCode :=
  checkMaxCount qinfo.maxGroupRun (countByGroup sinfo qinfo.runningJobs group)
    .queueGroupLimitReached

end

/-- `check_ded_time_boundry`. -/
def checkDedTimeBoundry (policy : Policy) (resreq : List ResourceReq) : Option FailCode :=
  if policy.dedTime.start = 0 then none
  else
    match findResourceReq resreq .walltime with
    | none => some .crossDedTimeBoundry
    | some res =>
      let finishTime := policy.currentTime + res.amount
      if policy.isDedTime = false ∧ policy.dedTime.start < finishTime then
        some .crossDedTimeBoundry
      else if policy.isDedTime = true ∧ policy.dedTime.stop < finishTime then
        some .crossDedTimeBoundry
      else none

/-- `check_starvation`. -/
def checkStarvation (policy : Policy) (job : JobRef) : Option FailCode :=
  if policy.starvingJob = none ∨ policy.starvingJob = some job then none else some .jobStarving

/-- The processors that a job asks for. -/
def ncpus (resreq : List ResourceReq) : Int :=
  match findResourceReq resreq .ncpus with
  | none => 1
  | some req => req.amount

/-- The nodes that `check_node_availability` finds fit for a job. -/
def fitsNode [Floating F] (resreq : List ResourceReq) (node : NodeInfo F) : Bool :=
  let mem := ((findResourceReq resreq .mem).map (·.amount)).getD 0
  node.isFree &&
    ((findResourceReq resreq .host).all fun host => host.resStr = node.name) &&
    ((findResourceReq resreq .arch).all fun arch => arch.resStr = node.arch) &&
    decide (mem ≤ node.physmem) &&
    Floating.le (Floating.add node.loadave (Floating.ofInt (ncpus resreq))) node.maxLoad

/-- `check_node_availability`. -/
def checkNodeAvailability [Floating F] (policy : Policy) (resreq : List ResourceReq)
    (nodes : Option (List (NodeInfo F))) : Option FailCode :=
  if policy.loadBalancing || policy.loadBalancingRr then
    match nodes with
    | none => none
    | some nodes => if nodes.any (fitsNode resreq) then none else some .noAvailableNode
  else none

/-- `check_nodes`.  The flag tells that the nodes will never be available. -/
def checkNodes [Floating F] (policy : Policy) (query : RescQuery) (sinfo : ServerInfo F)
    (jinfo : JobInfo F) : Option FailCode × Bool :=
  match findResourceReq jinfo.resreq .nodes with
  | none =>
    (checkNodeAvailability policy jinfo.resreq sinfo.timesharingNodes, jinfo.canNeverRun)
  | some _ =>
    if query.rc ≠ 0 then (some .schdError, jinfo.canNeverRun)
    else
      (if 0 < query.available then none else some .notEnoughNodesAvail,
        jinfo.canNeverRun || decide (query.available < 0))

/-- `dynamic_avail`. -/
def dynamicAvail (res : Resource) : Int :=
  if res.max = infinityVal ∧ res.avail = unspecified then infinityVal
  else if res.avail = unspecified then res.max
  else res.avail - res.assigned

/-- The names in `res_to_check`. -/
def resToCheck : List ResourceName :=
  [.mem, .ncpus, .nodect]

/-- A `long` that is stored in an `int`. -/
def narrow (amount : Int) : Int :=
  amount.bmod (2 ^ 32)

variable (reslist : List Resource) (resreq : List ResourceReq)

/-- `check_avail_resources`: the first resource of which there is not enough. -/
def checkAvailResources : Option FailCode :=
  resToCheck.zipIdx.findSome? fun (name, index) =>
    match findResource reslist name, findResourceReq resreq name with
    | some res, some req =>
      let avail := narrow (dynamicAvail res)
      if avail ≠ infinityVal ∧ avail < req.amount then some (.resource index) else none
    | _, _ => none

/-- `check_token_utilization`. -/
def checkTokenUtilization [Floating F] (sinfo : ServerInfo F) (jinfo : JobInfo F) :
    Option FailCode :=
  match jinfo.tokens with
  | none => none
  | some requested =>
    let countUsed := sinfo.runningJobs.foldl (fun used job =>
      match (sinfo.jobInfo job).tokens with
      | none => used
      | some running =>
        if running.identifier = requested.identifier then Floating.add used running.count
        else used) (Floating.ofInt 0)
    let maxCount := sinfo.tokens.foldl (fun most token =>
      if token.identifier = requested.identifier then token.count else most) (Floating.ofInt 0)
    if Floating.lt maxCount (Floating.add countUsed requested.count) then
      some .serverTokenUtilization
    else none

/-- The checks of `is_ok_to_run_job` that come before the server is asked for nodes. -/
def checkLimits (policy : Policy) (sinfo : ServerInfo F) (job : JobRef) : Option FailCode :=
  let jinfo := sinfo.jobInfo job
  let qinfo := sinfo.queueOf job
  checkServerMaxRun sinfo <|> checkServerMaxUserRun sinfo jinfo.account <|>
    checkServerMaxGroupRun sinfo jinfo.group <|> checkQueueMaxRun qinfo <|>
    checkQueueMaxUserRun sinfo qinfo jinfo.account <|>
    checkQueueMaxGroupRun sinfo qinfo jinfo.group <|>
    checkDedTimeBoundry policy jinfo.resreq <|> checkStarvation policy job

/-- The checks of `is_ok_to_run_job` behind that. -/
def checkResources [Floating F] (sinfo : ServerInfo F) (job : JobRef) : Option FailCode :=
  let jinfo := sinfo.jobInfo job
  checkAvailResources (sinfo.queueOf job).qres jinfo.resreq <|>
    checkAvailResources sinfo.res jinfo.resreq <|> checkTokenUtilization sinfo jinfo

/-- `is_ok_to_run_job`: the code if the job is refused, and the flag `can_never_run`. -/
def isOkToRunJob [Floating F] (policy : Policy) (query : RescQuery) (sinfo : ServerInfo F)
    (job : JobRef) : Option FailCode × Bool :=
  match checkLimits policy sinfo job with
  | some code => (some code, (sinfo.jobInfo job).canNeverRun)
  | none =>
    let (code, canNeverRun) := checkNodes policy query sinfo (sinfo.jobInfo job)
    (code <|> checkResources sinfo job, canNeverRun)

/-! ## The scheduler refuses no job as not queued -/

theorem checkMaxRun_ne_notQueued {maxRun : Int} {sc : StateCount} (other : code ≠ .notQueued) :
    checkMaxRun maxRun sc code ≠ some .notQueued := by
  unfold checkMaxRun
  split
  · nofun
  · split
    · nofun
    · intro equal
      exact other (Option.some.inj equal)

theorem checkMaxCount_ne_notQueued {maxCount count : Int} (other : code ≠ .notQueued) :
    checkMaxCount maxCount count code ≠ some .notQueued := by
  unfold checkMaxCount
  split
  · nofun
  · intro equal
    exact other (Option.some.inj equal)

theorem orElse_ne {α : Type} {first second : Option α} {value : α} (left : first ≠ some value)
    (right : second ≠ some value) : (first <|> second) ≠ some value := by
  cases first with
  | none => exact right
  | some other => exact left

theorem checkDedTimeBoundry_ne_notQueued (resreq : List ResourceReq) :
    checkDedTimeBoundry policy resreq ≠ some .notQueued := by
  unfold checkDedTimeBoundry
  split
  · nofun
  · split
    · nofun
    · dsimp only
      split
      · nofun
      · split <;> nofun

theorem checkStarvation_ne_notQueued : checkStarvation policy job ≠ some .notQueued := by
  unfold checkStarvation
  split <;> nofun

theorem checkLimits_ne_notQueued : checkLimits policy sinfo job ≠ some .notQueued := by
  refine orElse_ne (checkMaxRun_ne_notQueued (by decide)) ?_
  refine orElse_ne (checkMaxCount_ne_notQueued (by decide)) ?_
  refine orElse_ne (checkMaxCount_ne_notQueued (by decide)) ?_
  refine orElse_ne (checkMaxRun_ne_notQueued (by decide)) ?_
  refine orElse_ne (checkMaxCount_ne_notQueued (by decide)) ?_
  refine orElse_ne (checkMaxCount_ne_notQueued (by decide)) ?_
  exact orElse_ne (checkDedTimeBoundry_ne_notQueued _ _) (checkStarvation_ne_notQueued _ _)

variable [Floating F]

theorem checkNodes_ne_notQueued : (checkNodes policy query sinfo jinfo).1 ≠ some .notQueued := by
  unfold checkNodes
  split
  · unfold checkNodeAvailability
    split
    · split
      · nofun
      · split <;> nofun
    · nofun
  · split
    · nofun
    · split <;> nofun

theorem checkAvailResources_ne_notQueued :
    checkAvailResources reslist resreq ≠ some .notQueued := by
  intro refused
  obtain ⟨⟨name, index⟩, _, short⟩ := List.exists_of_findSome?_eq_some refused
  dsimp only at short
  split at short
  · split at short
    · cases short
    · cases short
  · cases short

theorem checkTokenUtilization_ne_notQueued :
    checkTokenUtilization sinfo jinfo ≠ some .notQueued := by
  unfold checkTokenUtilization
  split
  · nofun
  · dsimp only
    split <;> nofun

/-- No check of `is_ok_to_run_job` looks whether the job is queued. -/
theorem isOkToRunJob_ne_notQueued : (isOkToRunJob policy query sinfo job).1 ≠ some .notQueued := by
  unfold isOkToRunJob
  split
  · next code limited =>
    intro equal
    exact checkLimits_ne_notQueued policy sinfo job (limited.trans equal)
  · apply orElse_ne (checkNodes_ne_notQueued policy query sinfo _)
    apply orElse_ne (checkAvailResources_ne_notQueued _ _)
    exact orElse_ne (checkAvailResources_ne_notQueued _ _)
      (checkTokenUtilization_ne_notQueued sinfo _)

end

end Torque.Scheduler
