import Torque.Dependency.Attribute
import Torque.Server.Types

/-!
# The dependency hold of a job

A job that is to run after others is held by the system until they have started or
ended.  Its parents hear of it by registrations, and send it a message when they start
or end; the message takes their entry out of its dependencies.  Whenever a dependency
has lost its last entry, and on some other occasions, `set_depend_hold` looks at what is
left and clears the hold if nothing stands against it.

One job is modelled with its dependencies, the other jobs as far as they matter to it, and
the messages on their way.
-/

namespace Torque.Dependency

open Torque.Server

/-- The types of the jobs that `set_depend_hold` looks for. -/
def DependType.isAfter : DependType → Bool
  | afterStart => true
  | afterOk => true
  | afterNotOk => true
  | afterAny => true
  | _ => false

/-- How the server finds jobs by their names. -/
structure NameConfig where
  names : ServerNames
  /-- One of the two settings about suffixes was made. -/
  suffixSet : Bool

namespace NameConfig

variable (config : NameConfig) (id : JobId)

/-- A name as it is compared with others. -/
def compared : JobId :=
  if config.suffixSet then getCorrectJobname config.names id else id

/-- The name under which `svr_find_job` looks for a job. -/
def key : JobId :=
  config.compared (id.takeWhile (· ≠ '@'))

/-- `job_ids_match`. -/
def jobIdsMatch (parent child : JobId) : Bool :=
  config.compared parent = config.compared child

end NameConfig

/-- `JOB_SUBSTATE_DEPNHOLD` and `JOB_SUBSTATE_SYNCHOLD`. -/
inductive HoldSubstate where
  | depnHold
  | syncHold
  deriving DecidableEq

/-- The job with the dependencies. -/
structure DependentJob where
  id : JobId
  depend : DependList
  /-- `dp_released` of its `synccount` or `syncwith`. -/
  released : Bool := false
  /-- The substate, if it is one of the two holds. -/
  substate : Option HoldSubstate := none
  systemHold : Bool := false
  userHold : Bool := false
  aborted : Bool := false

/-- Another job of the server. -/
structure OtherJob where
  state : JobState
  exitStat : Int := 0
  depend : DependList

/-- What a parent sends to the job. -/
inductive DependOp where
  | release
  | delete
  deriving DecidableEq

/-- A message to the job, with the type of the dependency on the side of the sender. -/
structure Message where
  op : DependOp
  type : DependType
  sender : JobId
  deriving DecidableEq

/-- An entry of a dependency. -/
abbrev Entry := DependType × JobId

instance : LawfulBEq Entry :=
  inferInstance

/-- The job, the other jobs, and the messages to the job.

The last four fields only record what happened: the jobs that have started, the jobs that
have ended with their exit status, the entries that the job has to wait for, and for every
time its hold was cleared the entries that had not been fulfilled then. -/
structure System where
  job : DependentJob
  others : JobId → Option OtherJob
  mail : List Message
  started : List JobId
  ended : List (JobId × Int)
  wanted : List Entry
  clears : List (List Entry)

/-! ## What the dependencies require -/

/-- The job with a name has reached the state that a type requires. -/
def ReachedBy (system : System) (type : DependType) (id : JobId) : Prop :=
  match type with
  | .afterStart => id ∈ system.started ∨ ∃ ended ∈ system.ended, ended.1 = id
  | .afterOk => ∃ ended ∈ system.ended, ended.1 = id ∧ ended.2 = 0
  | .afterNotOk => ∃ ended ∈ system.ended, ended.1 = id ∧ ended.2 ≠ 0
  | _ => ∃ ended ∈ system.ended, ended.1 = id

instance (system : System) (type : DependType) (id : JobId) :
    Decidable (ReachedBy system type id) := by
  unfold ReachedBy
  split <;> infer_instance

variable (config : NameConfig) (system : System)

/-- The parent of an entry has reached the state that the type requires. -/
def Reached (type : DependType) (parent : JobId) : Prop :=
  ReachedBy system type (config.key parent)
deriving Decidable

/-- The entries of a list that name jobs to come after. -/
def afterEntries (list : DependList) : List Entry :=
  (list.filter fun pd => pd.type.isAfter).flatMap fun pd => pd.jobs.map fun child => (pd.type, child)

/-- The wanted entries that are not fulfilled. -/
def pending : List Entry :=
  system.wanted.filter fun entry => !decide (Reached config system entry.1 entry.2)

/-! ## `set_depend_hold` -/

/-- A job is running, or was. -/
def isStarted : JobState → Bool
  | .running => true
  | .exiting => true
  | .complete => true
  | _ => false

/-- What `set_depend_hold` asks of a parent. -/
def satisfies (type : DependType) (djp : Option OtherJob) : Bool :=
  match djp with
  | none => false
  | some other =>
    if type = .afterStart then isStarted other.state
    else
      other.state = .complete &&
        !(type = .afterOk && other.exitStat ≠ 0) &&
        !(type = .afterNotOk && other.exitStat = 0)

/-- The loop of `set_depend_hold`.  `djp` is the job that was found last: it is not reset
when the next dependency names the job itself. -/
def holdLoop (config : NameConfig) (job : DependentJob) (others : JobId → Option OtherJob) :
    DependList → Option OtherJob → Option HoldSubstate → Option HoldSubstate
  | [], _, substate => substate
  | pdp :: more, djp, substate =>
    match pdp.type with
    | .syncCt =>
      holdLoop config job others more djp (if job.released then substate else some .syncHold)
    | .syncWith =>
      holdLoop config job others more djp
        (if pdp.jobs ≠ [] ∧ job.released = false then some .syncHold else substate)
    | .on =>
      holdLoop config job others more djp (if pdp.numexp ≠ 0 then some .depnHold else substate)
    | type =>
      if type.isAfter then
        match pdp.jobs with
        | [] => holdLoop config job others more djp substate
        | first :: _ =>
          let djp := if config.jobIdsMatch job.id first then djp else others (config.key first)
          holdLoop config job others more djp
            (if satisfies type djp then substate else some .depnHold)
      else holdLoop config job others more djp substate

/-- `set_depend_hold`. -/
def setDependHold : System :=
  match holdLoop config system.job system.others system.job.depend none none with
  | some substate =>
    { system with job := { system.job with substate := some substate, systemHold := true } }
  | none =>
    if system.job.substate.isSome then
      { system with
        job := { system.job with substate := none, systemHold := false }
        clears := system.clears ++ [pending config system] }
    else system

/-! ## The requests to the job -/

section

variable (names : ServerNames) (type : DependType) (name : JobId) (list : DependList)

/-- The entry that `find_dependjob` finds for a name. -/
def findEntry : Option JobId :=
  (list.find? fun pd => pd.type = type).bind fun pd => pd.jobs.find? (namesJob names name)

end

/-- The dependency of the type is deleted if it has no jobs. -/
def deleteEmpty (type : DependType) (list : DependList) : DependList :=
  list.filter fun pd => !(pd.type = type && pd.jobs.isEmpty)

/-- The entries of a job that a request takes away are no longer wanted, unless they are
listed once more. -/
def dropWanted (type : DependType) (name : JobId) (list : DependList) (wanted : List Entry) :
    List Entry :=
  wanted.filter fun entry =>
    !(entry.1 = type && config.key entry.2 = config.key name) || entry ∈ afterEntries list

section

variable (type : DependType) (child : JobId) (system : System)

/-- `release_before_dependency`.  The flag of this function and the next ones says whether
`set_depend_hold` is called in the end. -/
def releaseBeforeDependency : System × Bool :=
  match findEntry config.names type child system.job.depend with
  | none => (system, false)
  | some _ =>
    let depend := removeEntry config.names type child system.job.depend
    let kept := deleteEmpty type depend
    ({ system with job := { system.job with depend := kept } }, kept ≠ depend)

/-- `post_doq` after a registration was refused.  `BADSTATE` says that the parent has reached
its state; for any other reason the entry is given up and the user is to release the job. -/
def postDoq (badState : Bool) (type : DependType) (parent : JobId) (system : System) :
    System × Bool :=
  match findEntry config.names type parent system.job.depend with
  | none => (system, false)
  | some _ =>
    let depend := removeEntry config.names type parent system.job.depend
    ({ system with
        job := { system.job with
          depend := depend
          userHold := system.job.userHold || !badState }
        wanted :=
          if badState then system.wanted
          else dropWanted config type parent depend system.wanted }, true)

/-- `unregister_dependency`, for all types but `syncwith`. -/
def unregisterDependency : System × Bool :=
  match findEntry config.names type child system.job.depend with
  | none => (system, true)
  | some _ =>
    let depend := removeEntry config.names type child system.job.depend
    ({ system with
        job := { system.job with depend := depend }
        wanted := dropWanted config type child depend system.wanted }, true)

/-- `removeAfterAnyDependency`, which a parent that lists the job calls when it is deleted. -/
def removeAfterAnyDependency (parent : JobId) (system : System) : System × Bool :=
  match findEntry config.names .afterAny parent system.job.depend with
  | none => (system, false)
  | some _ => unregisterDependency config .afterAny parent system

/-- `register_before_dep`: another job is to come before this one, which must have an `on`.
It is called for the types whose mirror image is one of the `after` types. -/
def registerBeforeDep : System :=
  match system.job.depend.find? (fun pd => pd.type = .on), type.mirror with
  | some on, some mirrored =>
    if !mirrored.isAfter || (findEntry config.names mirrored child system.job.depend).isSome then
      system
    else
      let depend := registerDep config.names type child system.job.depend
      let counted :=
        if on.numexp - 1 ≤ 0 then depend.filter fun pd => pd.type ≠ .on
        else changeType .on (fun pd => { pd with numexp := pd.numexp - 1 }) depend
      { system with
        job := { system.job with depend := counted }
        wanted := (mirrored, child) :: system.wanted }
  | _, _ => system

end

/-! ## The other jobs -/

/-- The messages of `depend_on_exec` to the job. -/
def startMessages (job : DependentJob) (sender : JobId) (depend : DependList) : List Message :=
  ((depend.filter fun pd => pd.type = .beforeStart).flatMap Depend.jobs).filterMap fun child =>
    if config.key child = config.key job.id then some ⟨.release, .beforeStart, sender⟩ else none

/-- What `depend_on_term` sends for a type. -/
def termOp (aborted : Bool) (exitStat : Int) : DependType → Option DependOp
  | .beforeStart => some .delete
  | .beforeOk => some (if aborted then .delete else if exitStat = 0 then .release else .delete)
  | .beforeNotOk => some (if exitStat ≠ 0 then .release else .delete)
  | .beforeAny => some .release
  | _ => none

/-- The messages of `depend_on_term` to the job. -/
def termMessages (job : DependentJob) (sender : JobId) (aborted : Bool) (exitStat : Int)
    (depend : DependList) : List Message :=
  depend.flatMap fun pd =>
    match termOp aborted exitStat pd.type with
    | none => []
    | some op =>
      pd.jobs.filterMap fun child =>
        if config.key child = config.key job.id then some ⟨op, pd.type, sender⟩ else none

/-- What is asked of a parent by `check_dependency_job` for the registration to be refused. -/
def isBadState (type : DependType) (other : OtherJob) : Bool :=
  (other.state = .complete || other.state = .exiting) &&
    (type = .afterStart || type = .afterAny || (type = .afterOk && other.exitStat = 0) ||
      (type = .afterNotOk && other.exitStat ≠ 0))

/-- The table of the other jobs with one entry changed. -/
def putOther (others : JobId → Option OtherJob) (id : JobId) (other : Option OtherJob) :
    JobId → Option OtherJob :=
  fun k => if k = id then other else others k

/-! ## Steps -/

/-- What happens to the job and to the others. -/
inductive HoldEvent where
  /-- Another job comes to the server. -/
  | arrive (id : JobId) (depend : DependList)
  /-- It is held, queued again, or moved between queues. -/
  | wait (id : JobId) (state : JobState)
  | start (id : JobId)
  | finish (id : JobId) (exitStat : Int) (aborted : Bool)
  | complete (id : JobId)
  | purge (id : JobId)
  /-- A message reaches the job; the messages may overtake each other. -/
  | deliver (index : Nat)
  /-- The job registers with a parent that it lists. -/
  | register (type : DependType) (parent : JobId)
  /-- Another job registers as one to come before the job, or takes that back. -/
  | registerBefore (type : DependType) (child : JobId)
  | unregister (type : DependType) (child : JobId)
  /-- A parent is deleted: `removeBeforeAnyDependencies` comes before it ends. -/
  | removeBeforeAny (parent : JobId)
  /-- The job is released in its sync set, or the release is taken back. -/
  | sync (released : Bool)
  /-- The hold is looked at again. -/
  | evaluate

/-- The other job lists this one as a job to come after it in any case. -/
def listsBeforeAny (system : System) (parent : JobId) : Bool :=
  (system.others parent).any fun other => other.depend.any fun pd =>
    pd.type = .beforeAny && pd.jobs.any fun child => config.key child = config.key system.job.id

/-- The registration of the job with a parent. -/
def registerWith (type : DependType) (parent : JobId) (system : System) : System × Bool :=
  match system.others (config.key parent) with
  | none => postDoq config false type parent system
  | some other =>
    if isBadState type other then postDoq config true type parent system
    else
      ({ system with
          others := putOther system.others (config.key parent)
            (some { other with
              depend := registerDep config.names type system.job.id other.depend }) }, false)

/-- A message is handled by `req_register`. -/
def receive (message : Message) (system : System) : System × Bool :=
  match message.op, message.type.mirror with
  | .release, some type =>
    if type.isAfter then releaseBeforeDependency config type message.sender system
    else (system, false)
  | .release, none => (system, false)
  | .delete, _ => ({ system with job := { system.job with aborted := true } }, false)

/-- One step of the other jobs. -/
def otherStep (id : JobId) (other : OtherJob) :
    HoldEvent → System
  | .wait _ state =>
    if isStarted state || other.state = .exiting || other.state = .complete then system
    else { system with others := putOther system.others id (some { other with state := state }) }
  | .start _ =>
    if isStarted other.state then system
    else
      { system with
        others := putOther system.others id
          (some { other with
            state := .running
            depend := changeType .beforeStart
              (fun pd => { pd with
                jobs := pd.jobs.filter fun child =>
                  config.key child ≠ config.key system.job.id })
              other.depend })
        mail := system.mail ++ startMessages config system.job id other.depend
        started := id :: system.started }
  | .finish _ exitStat aborted =>
    if other.state = .exiting || other.state = .complete then system
    else
      { system with
        others := putOther system.others id
          (some { other with state := .exiting, exitStat := exitStat })
        mail := system.mail ++
          termMessages config system.job id aborted exitStat other.depend
        ended := (id, exitStat) :: system.ended }
  | .complete _ =>
    if other.state = .exiting then
      { system with
        others := putOther system.others id (some { other with state := .complete }) }
    else system
  | .purge _ =>
    if other.state = .complete then { system with others := putOther system.others id none }
    else system
  | _ => system

/-- What an event about the job itself does before the hold is looked at. -/
def jobRequest : HoldEvent → System × Bool
  | .deliver index =>
    match system.mail[index]? with
    | none => (system, false)
    | some message =>
      receive config message { system with mail := system.mail.eraseIdx index }
  | .register type parent =>
    if (type, parent) ∈ afterEntries system.job.depend then
      registerWith config type parent system
    else (system, false)
  | .registerBefore type child => (registerBeforeDep config type child system, false)
  | .unregister type child =>
    match type.mirror with
    | none => (system, true)
    | some mirrored =>
      if type = .syncWith then (system, true)
      else unregisterDependency config mirrored child system
  | .removeBeforeAny parent =>
    if listsBeforeAny config system parent then removeAfterAnyDependency config parent system
    else (system, false)
  | .sync released => ({ system with job := { system.job with released := released } }, true)
  | .evaluate => (system, true)
  | _ => (system, false)

variable (event : HoldEvent)

/-- One step about the job itself. -/
def jobStep : System :=
  if (jobRequest config system event).2 then setDependHold config (jobRequest config system event).1
  else (jobRequest config system event).1

/-- One step.  A job that was aborted takes no part any more, and one that is not there does
nothing. -/
def holdStep : System :=
  match event with
  | .arrive id depend =>
    if id = config.key system.job.id || (system.others id).isSome ||
        system.started.contains id || system.ended.any fun ended => ended.1 = id then system
    else
      { system with
        others := putOther system.others id (some { state := .queued, depend := depend }) }
  | .wait id _ | .start id | .finish id _ _ | .complete id | .purge id =>
    match system.others id with
    | none => system
    | some other => otherStep config system id other event
  | event => if system.job.aborted then system else jobStep config system event

/-- A job with its dependencies, before anything has happened. -/
def System.new (id : JobId) (depend : DependList) : System where
  job := { id := id, depend := depend }
  others := fun _ => none
  mail := []
  started := []
  ended := []
  wanted := afterEntries depend
  clears := []

end Torque.Dependency
