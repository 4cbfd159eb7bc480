import Mathlib.Algebra.BigOperators.Group.List.Basic
import Torque.Server.Calls
import Torque.Structure.Tally
import Torque.Transition.Run

/-!
# Counters under overlapping calls

The counters of the server and of the queues should agree with the lists whenever no call is
in progress.  The lists with their counters form a ledger.  A call of `svr_setjobstate` that
waits for its queue has already moved the counters of the server but not the job; until it
goes on, the ledger is right up to what such calls owe.

The debt is paid only if the job is then in the state in which it was, and still where the
call believes it to be.  The other conditions are on jobs that enter `alljobs` a second time
or not at all, on states that change without being counted, and on the recount that is
started when a counter has become negative.
-/

namespace Torque.Server

open Torque.Structure Torque.Transition Torque.Insertion Function List CallData

/-! ## Ledgers -/

/-- A list of jobs with its counters. -/
structure ListCount where
  list : List Name
  total : Int
  states : JobState → Int

/-- The lists with their counters, the states of the jobs, and the names of the queues. -/
structure Ledger where
  all : ListCount
  queues : Name → Option ListCount
  state : Name → JobState
  template : Name → Bool
  names : List Name

namespace Ledger

variable (ledger : Ledger)

/-- The list of all jobs and its counters. -/
def putAll (all : ListCount) : Ledger :=
  { ledger with all := all }

/-- The list of a queue and its counters. -/
def putQueue (name : Name) (count : ListCount) : Ledger :=
  { ledger with queues := update ledger.queues name (some count) }

/-- The state of a job. -/
def putState (id : Name) (newstate : JobState) : Ledger :=
  { ledger with state := update ledger.state id newstate }

end Ledger

/-- The list and the counters of a queue. -/
def Queue.count (queue : Queue) : ListCount :=
  ⟨queue.quJobs, queue.quNumjobs, queue.quNjstate⟩

/-- The ledger of the server. -/
def CallData.ledger (data : CallData) : Ledger where
  all := ⟨data.server.alljobs, data.server.svNumjobs, data.server.svJobstates⟩
  queues := fun name => (data.server.queues name).map Queue.count
  state := fun id => (data.server.jobs id).jiState
  template := fun id => (data.server.jobs id).jiIsArrayTemplate
  names := data.queueNames

/-- The counters agree with the list up to a debt, and the list has jobs only, each once. -/
structure ListCount.Right (state : Name → JobState) (template : Name → Bool)
    (owed : JobState → Int) (count : ListCount) : Prop where
  tally : Tally count.list state count.total fun s => count.states s - owed s
  nodup : count.list.Nodup
  jobs : ∀ id ∈ count.list, template id = false

/-- All counters agree, those of the server up to a debt. -/
structure Ledger.Right (template : Name → Bool) (owed : JobState → Int) (ledger : Ledger) :
    Prop where
  templates : ledger.template = template
  all : ledger.all.Right ledger.state template owed
  queues : ∀ name count, ledger.queues name = some count →
    count.Right ledger.state template fun _ => 0
  names : ∀ name count, ledger.queues name = some count → name ∈ ledger.names

section

variable {state : Name → JobState} {template : Name → Bool} {owed : JobState → Int}
  {count : ListCount} {id : Name}

theorem countState_eq_adjust : countState = adjust (β := JobState) :=
  rfl

section

variable (right : count.Right state template owed)
include right

theorem ListCount.Right.insert {list : List Name} (perm : list.Perm (id :: count.list))
    (fresh : id ∉ count.list) (job : template id = false) :
    ListCount.Right state template owed
      ⟨list, count.total + 1, countState count.states (state id) 1⟩ where
  tally := by
    apply (right.tally.insert perm).congr
    intro s
    simp only [countState_eq_adjust, adjust_apply]
    omega
  nodup := perm.nodup_iff.2 (nodup_cons.2 ⟨fresh, right.nodup⟩)
  jobs := by
    intro other mem
    rcases mem_cons.1 (perm.mem_iff.1 mem) with rfl | mem
    · exact job
    · exact right.jobs other mem

theorem ListCount.Right.erase (mem : id ∈ count.list) :
    ListCount.Right state template owed
      ⟨count.list.erase id, count.total - 1, countState count.states (state id) (-1)⟩ where
  tally := by
    apply (right.tally.erase mem).congr
    intro s
    simp only [countState_eq_adjust, adjust_apply]
    omega
  nodup := right.nodup.erase id
  jobs := fun other mem => right.jobs other (mem_of_mem_erase mem)

/-- A job that is not in the list changes its state. -/
theorem ListCount.Right.update_of_not_mem (absent : id ∉ count.list) (newstate : JobState) :
    count.Right (update state id newstate) template owed :=
  ⟨right.tally.update_of_not_mem absent, right.nodup, right.jobs⟩

end

/-- What is owed by a call that has moved the counters of the server. -/
def movement (oldstate newstate : JobState) : JobState → Int :=
  moveState (fun _ => 0) oldstate newstate

/-- A job of the list changes its state, together with the counters. -/
theorem ListCount.Right.move (right : count.Right state template owed) (mem : id ∈ count.list)
    (newstate : JobState) :
    ListCount.Right (update state id newstate) template owed
      ⟨count.list, count.total, moveState count.states (state id) newstate⟩ where
  tally := by
    apply (right.tally.update_of_mem right.nodup mem).congr
    intro s
    simp only [moveState, countState_eq_adjust, adjust_apply]
    omega
  nodup := right.nodup
  jobs := right.jobs

/-- A job of the list changes its state, and a debt is paid. -/
theorem ListCount.Right.settle {newstate : JobState}
    (right : count.Right state template fun s => owed s + movement (state id) newstate s)
    (mem : id ∈ count.list) : count.Right (update state id newstate) template owed where
  tally := by
    apply (right.tally.update_of_mem right.nodup mem).congr
    intro s
    simp only [movement, moveState, countState_eq_adjust, adjust_apply]
    omega
  nodup := right.nodup
  jobs := right.jobs

theorem ListCount.Right.owe (right : count.Right state template owed)
    (oldstate newstate : JobState) :
    ListCount.Right state template (fun s => owed s + movement oldstate newstate s)
      ⟨count.list, count.total, moveState count.states oldstate newstate⟩ where
  tally := by
    apply right.tally.congr
    intro s
    simp only [movement, moveState, countState_eq_adjust, adjust_apply]
    omega
  nodup := right.nodup
  jobs := right.jobs

end

/-! ## Steps of a ledger -/

section

variable {template : Name → Bool} {owed owed' : JobState → Int} {ledger : Ledger}

variable (right : ledger.Right template owed)
include right

/-- The list of the server changes with its counters. -/
theorem Ledger.Right.setAll {all : ListCount} (agrees : all.Right ledger.state template owed') :
    (ledger.putAll all).Right template owed' :=
  ⟨right.templates, agrees, right.queues, right.names⟩

/-- The list of a queue changes with its counters. -/
theorem Ledger.Right.setQueue {name : Name} {count count' : ListCount}
    (found : ledger.queues name = some count)
    (agrees : count'.Right ledger.state template fun _ => 0) :
    (ledger.putQueue name count').Right template owed where
  templates := right.templates
  all := right.all
  queues := forall_update_some agrees right.queues
  names := forall_update_some (right.names name count found) right.names

/-- A job that is in no list changes its state. -/
theorem Ledger.Right.setState {id : Name} (notAll : id ∉ ledger.all.list)
    (notQueued : ∀ name count, ledger.queues name = some count → id ∉ count.list)
    (newstate : JobState) : (ledger.putState id newstate).Right template owed where
  templates := right.templates
  all := right.all.update_of_not_mem notAll newstate
  queues := fun name count found =>
    (right.queues name count found).update_of_not_mem (notQueued name count found) newstate
  names := right.names

end

/-! ## The ledger of the server -/

section

variable (data : CallData) (server : ServerState) (name id : Name) {job : Job}

@[simp]
theorem setServer_server : (data.setServer server).server = server :=
  rfl

@[simp]
theorem setServer_self : data.setServer data.server = data :=
  rfl

@[simp]
theorem ledger_unlock : (data.unlock name).ledger = data.ledger :=
  rfl

@[simp]
theorem ledger_unlockHeld (held : Option Name) : (data.unlockHeld held).ledger = data.ledger := by
  cases held with
  | none => rfl
  | some name => rfl

theorem ledger_setQueue (queue : Queue) :
    (data.setServer (server.setQueue name queue)).ledger =
      (data.setServer server).ledger.putQueue name queue.count := by
  unfold ledger Ledger.putQueue
  congr 1
  funext other
  exact apply_update (fun _ => Option.map Queue.count) server.queues name (some queue) other

/-- A queue changes, but not in its list and its counters. -/
theorem ledger_setQueue_of_count {queue queue' : Queue} (found : server.queues name = some queue)
    (same : queue'.count = queue.count) :
    (data.setServer (server.setQueue name queue')).ledger = (data.setServer server).ledger := by
  have old : (data.setServer server).ledger.queues name = some queue'.count := by
    rw [same]
    exact congrArg (Option.map Queue.count) found
  rw [ledger_setQueue, Ledger.putQueue, ← old, update_eq_self]

/-- A job changes, and remains an array template or not. -/
theorem ledger_putJob (request : job.jobArrayRequest = (server.jobs id).jobArrayRequest) :
    (data.setServer (server.setJob id job)).ledger =
      (data.setServer server).ledger.putState id job.jiState := by
  have states := comp_update Job.jiState server.jobs id job
  have templates := comp_update Job.jobArrayRequest server.jobs id job
  rw [request] at templates
  have same := templates.trans (update_eq_self id (Job.jobArrayRequest ∘ server.jobs))
  unfold ledger Ledger.putState
  congr 1
  exact congrArg (Option.isSome ∘ ·) same

theorem ledger_setJob (state : job.jiState = (server.jobs id).jiState)
    (request : job.jobArrayRequest = (server.jobs id).jobArrayRequest) :
    (data.setServer (server.setJob id job)).ledger = (data.setServer server).ledger := by
  have kept := update_eq_self id (data.setServer server).ledger.state
  rw [ledger_putJob data server id request, state, Ledger.putState]
  exact congrArg (fun state => { (data.setServer server).ledger with state := state }) kept

variable {data} {name} in
theorem ledger_queues {queue : Queue} (found : data.server.queues name = some queue) :
    data.ledger.queues name = some queue.count :=
  congrArg (Option.map Queue.count) found

end

/-! ## What calls owe -/

section

variable (template : Name → Bool)

/-- What the server's counters are ahead of the jobs when a call waits. -/
def Call.owes : Call → JobState → Int
  | .setState id _ oldstate newstate _ =>
    if template id then fun _ => 0 else movement oldstate newstate
  | _ => fun _ => 0

/-- What is true of a call in progress. -/
def Call.Sound : Call → Prop
  | .enqueRank id _ => template id = false
  | .dequeSum _ _ _ badCt => badCt = false
  | .dequeAlljobs _ _ badCt => badCt = false
  | .setState _ _ oldstate newstate _ => oldstate ≠ newstate
  | _ => True

/-- What a call that goes on owes to the counters. -/
def Outcome.owes : Outcome → JobState → Int
  | .waits call => call.owes template
  | .returns _ => fun _ => 0

/-- What is true of a call that goes on. -/
def Outcome.Sound : Outcome → Prop
  | .waits call => call.Sound template
  | .returns _ => True

end

/-- A call has come to its next stop with the counters right. -/
structure Arrived (template : Name → Bool) (owed : JobState → Int) (result : CallData × Outcome) :
    Prop where
  right : result.1.ledger.Right template fun s => owed s + result.2.owes template s
  sound : result.2.Sound template

section

variable {template : Name → Bool} {owed : JobState → Int} {data : CallData} {id name : Name}
  {call : Call} {prevJobId : Option Name} {around : Surroundings} {queue : Queue}
  {newstate : JobState} {newsubstate : Substate} {pque : Option Name} {ledger : Ledger}

section

variable (right : data.ledger.Right template owed)
include right

theorem Ledger.Right.isTemplate (id : Name) :
    (data.server.jobs id).jiIsArrayTemplate = template id :=
  congrFun right.templates id

theorem Arrived.returns (code : Pbse) : Arrived template owed (data, .returns code) where
  right := by simpa [Outcome.owes] using right
  sound := trivial

theorem Arrived.waits (nothing : call.owes template = fun _ => 0) (sound : call.Sound template) :
    Arrived template owed (data, .waits call) where
  right := by simpa [Outcome.owes, nothing] using right
  sound := sound

end

theorem Arrived.unlock {outcome : Outcome} (arrived : Arrived template owed (data, outcome))
    (name : Name) : Arrived template owed (data.unlock name, outcome) :=
  ⟨arrived.right, arrived.sound⟩

/-! ### `svr_enquejob` -/

/-- The job is not in `alljobs`, and the job that it is to follow is. -/
def Enters (ledger : Ledger) (id : Name) (prevJobId : Option Name) : Prop :=
  id ∉ ledger.all.list ∧ ∀ prev ∈ prevJobId, prev ∈ ledger.all.list
deriving Decidable

theorem insertAlljobs_perm {alljobs : List Name} (fresh : id ∉ alljobs)
    (follows : ∀ prev ∈ prevJobId, prev ∈ alljobs) :
    (insertAlljobs alljobs id prevJobId).Perm (id :: alljobs) := by
  cases prevJobId with
  | none =>
    rw [insertAlljobs, if_neg fresh]
    exact perm_append_singleton id alljobs
  | some prev =>
    rw [insertAlljobs, if_pos (follows prev rfl)]
    exact insertBehind_perm _ _ _

theorem right_listAlljobs (right : data.ledger.Right template owed) (prevJobId : Option Name)
    (enters : template id = false → Enters data.ledger id prevJobId) :
    (data.setServer (data.server.listAlljobs id prevJobId)).ledger.Right template owed := by
  have same := right.isTemplate id
  unfold ServerState.listAlljobs
  split
  · exact right
  · next job =>
    rw [same, Bool.not_eq_true] at job
    obtain ⟨fresh, follows⟩ := enters job
    exact right.setAll (right.all.insert (insertAlljobs_perm fresh follows) fresh job)

theorem arrived_enqueSummary (right : data.ledger.Right template owed) :
    Arrived template owed (data.enqueSummary id name) := by
  have same : (data.setServer (data.server.listSummary id)).ledger = data.ledger := by
    unfold ServerState.listSummary
    split <;> rfl
  have jobs : (data.server.listSummary id).jobs = data.server.jobs := by
    unfold ServerState.listSummary
    split <;> rfl
  apply Arrived.waits
  · rw [ledger_setJob data (data.server.listSummary id) id]
    · rw [same]
      exact right
    · rfl
    · rfl
  · split <;> rfl
  · rw [jobs]
    split
    · trivial
    · next job =>
      rw [right.isTemplate, Bool.not_eq_true] at job
      exact job

/-- The call goes on to list the job. -/
def ListsJob (data : CallData) (id quename : Name) (haveReservation beingRecovered : Bool) : Prop :=
  ∀ found ∈ data.server.findQueuebyname quename,
    ¬(found.ghostQueue = true ∧ beingRecovered = false) ∧
      enqueLimit (found.useReservation haveReservation) (data.server.jobs id) = .none
deriving Decidable

theorem arrived_enqueFind (right : data.ledger.Right template owed) {quename : Name}
    {haveReservation beingRecovered : Bool}
    (enters : ListsJob data id quename haveReservation beingRecovered → template id = false →
      Enters data.ledger id prevJobId) :
    Arrived template owed
      (data.enqueFind id around quename prevJobId haveReservation beingRecovered) := by
  unfold enqueFind
  split
  · exact Arrived.returns right _
  · next found isFound =>
    split
    · exact Arrived.returns right _
    · next open_ =>
      dsimp only
      have reserved : (data.setServer (data.server.setQueue (stripServer quename)
          (found.useReservation haveReservation))).ledger.Right template owed := by
        rw [ledger_setQueue_of_count data _ _ isFound]
        · exact right
        · unfold Queue.useReservation
          split <;> rfl
      split
      · exact Arrived.returns reserved _
      · next limit =>
        rw [ne_eq, not_not] at limit
        have lists : ListsJob data id quename haveReservation beingRecovered := by
          intro other isOther
          obtain rfl := Option.some.inj (isFound.symm.trans isOther)
          exact ⟨open_, limit⟩
        have listed := right_listAlljobs reserved prevJobId (enters lists)
        split
        · refine Arrived.waits ?_ rfl trivial
          exact listed
        · apply arrived_enqueSummary
          exact listed

/-- A job of the queue that the walk through the list meets. -/
def MetByRank (data : CallData) (id name : Name) : Prop :=
  ∀ queue ∈ data.server.queues name, id ∈ queue.quJobs →
    id ∈ queue.quJobs.rtakeWhile fun other => !data.server.lowerRank id other
deriving Decidable

section

variable (right : data.ledger.Right template owed)
include right

theorem right_intoQueue (job : template id = false) (found : data.server.queues name = some queue)
    {list : List Name} (fresh : id ∉ queue.quJobs) (perm : list.Perm (id :: queue.quJobs)) :
    (data.setServer (data.server.intoQueue id name queue list)).ledger.Right template owed := by
  have counted : (data.setServer (data.server.setJob id (data.server.jobs id).counted)).ledger =
      data.ledger :=
    ledger_setJob data data.server id rfl rfl
  have placed : (data.setServer (data.server.intoQueue id name queue list)).ledger =
      data.ledger.putQueue name (queue.enqueued (data.server.jobs id) list).count := by
    rw [← counted, ← ledger_setQueue]
    rfl
  have listed := ledger_queues found
  rw [placed]
  exact right.setQueue listed ((right.queues name queue.count listed).insert perm fresh job)

theorem arrived_enqueRank (job : template id = false) (met : MetByRank data id name) :
    Arrived template owed (data.enqueRank id name around) := by
  unfold enqueRank
  split
  · exact Arrived.returns right _
  · next queue found =>
    split
    · exact (Arrived.returns right _).unlock name
    · exact (Arrived.returns right _).unlock name
    · next list inserted =>
      have fresh : id ∉ queue.quJobs := by
        intro mem
        unfold insertIntoAlljobsByRank at inserted
        rw [if_pos (met queue found mem)] at inserted
        exact nomatch inserted
      have perm : list.Perm (id :: queue.quJobs) := by
        unfold insertIntoAlljobsByRank at inserted
        split at inserted
        · exact nomatch inserted
        · split at inserted
          · cases inserted
            exact insertBehind_perm _ _ _
          · exact nomatch inserted
      have placed := right_intoQueue right job found fresh perm
      dsimp only
      split
      · exact Arrived.waits placed rfl trivial
      · exact (Arrived.returns placed _).unlock name

theorem right_intoSummary (found : data.server.queues name = some queue) {depend : Pbse} :
    (data.setServer (data.server.intoSummary id name queue depend).2).ledger.Right template
      owed := by
  unfold ServerState.intoSummary
  dsimp only
  split
  · split
    · exact right
    · exact right
    · rw [ledger_setQueue_of_count data _ _ found]
      · exact right
      · rfl
  · exact right

theorem arrived_enqueSum : Arrived template owed (data.enqueSum id name around) := by
  unfold enqueSum
  split
  · exact Arrived.returns right _
  · next queue found =>
    apply Arrived.unlock
    apply Arrived.returns
    exact right_intoSummary right found

end

/-! ### `svr_dequejob` -/

/-- The count of the job's state does not become negative when the job leaves `alljobs`. -/
def NoRecount (ledger : Ledger) (id : Name) : Prop :=
  id ∈ ledger.all.list → 0 < ledger.all.states (ledger.state id)
deriving Decidable

section

variable (right : data.ledger.Right template owed)
include right

theorem right_unlistAlljobs :
    (data.setServer (data.server.unlistAlljobs id)).ledger.Right template owed := by
  unfold ServerState.unlistAlljobs
  split
  · next listed =>
    exact right.setAll (right.all.erase listed.1)
  · next unlisted =>
    have absent : id ∉ data.server.alljobs := by
      intro mem
      apply unlisted
      refine ⟨mem, ?_⟩
      rw [← right.all.jobs id mem]
      exact congrFun right.templates id
    rw [erase_of_not_mem absent]
    exact right

theorem not_isNegative (positive : NoRecount data.ledger id) (mem : id ∈ data.server.alljobs)
    (job : (data.server.jobs id).jiIsArrayTemplate = false) :
    CallData.isNegative (data.server.unlistAlljobs id) (data.server.jobs id).jiState = false := by
  have total := right.all.tally.total_pos mem
  have state : 0 < data.server.svJobstates (data.server.jobs id).jiState := positive mem
  unfold isNegative ServerState.unlistAlljobs
  rw [if_pos ⟨mem, job⟩]
  simp only [countState_eq_adjust, adjust_apply, if_true, Bool.or_eq_false_iff,
    decide_eq_false_iff_not]
  change 0 < data.server.svNumjobs at total
  omega

/-- No recount is started. -/
theorem dequeAlljobs_eq (positive : NoRecount data.ledger id) (held : Option Name) :
    data.dequeAlljobs id held false =
      ((data.setServer (data.server.unlistAlljobs id)).unlockHeld held, .returns .none) := by
  have noRecount : (false || (decide (id ∈ data.server.alljobs) &&
      !(data.server.jobs id).jiIsArrayTemplate) && isNegative
        (data.server.unlistAlljobs id) (data.server.jobs id).jiState) = false := by
    by_cases mem : id ∈ data.server.alljobs
    · cases job : (data.server.jobs id).jiIsArrayTemplate with
      | true => simp
      | false => simp [mem, not_isNegative right positive mem job]
    · simp [mem]
  unfold dequeAlljobs
  dsimp only
  rw [noRecount, if_neg Bool.false_ne_true]

theorem arrived_dequeAlljobs (positive : NoRecount data.ledger id) (held : Option Name) :
    Arrived template owed (data.dequeAlljobs id held false) := by
  rw [dequeAlljobs_eq right positive]
  apply Arrived.returns
  rw [ledger_unlockHeld]
  exact right_unlistAlljobs right

theorem arrived_dequeRest (positive : around.alljobsBusy = false → NoRecount data.ledger id)
    (held : Option Name) : Arrived template owed (data.dequeRest id around held false) := by
  unfold dequeRest
  split
  · exact Arrived.waits right rfl rfl
  · next free =>
    exact arrived_dequeAlljobs right (positive (Bool.not_eq_true _ ▸ free)) held

end

/-- A queue and a job change, but not in what is counted. -/
theorem ledger_kept (id : Name) {queue' : Queue} {job : Job}
    (found : data.server.queues name = some queue) (count : queue'.count = queue.count)
    (state : job.jiState = (data.server.jobs id).jiState)
    (request : job.jobArrayRequest = (data.server.jobs id).jobArrayRequest) :
    (data.setServer ((data.server.setQueue name queue').setJob id job)).ledger = data.ledger :=
  (ledger_setJob data (data.server.setQueue name queue') id state request).trans
    (ledger_setQueue_of_count data _ _ found count)

theorem ledger_leaveQueue (id : Name) (found : data.server.queues name = some queue) :
    (data.setServer (data.server.leaveQueue id name queue)).ledger = data.ledger :=
  ledger_kept id found rfl rfl rfl

section

variable (right : data.ledger.Right template owed)
include right

theorem arrived_dequeSum (positive : around.alljobsBusy = false → NoRecount data.ledger id)
    (held : Bool) : Arrived template owed (data.dequeSum id name held false around) := by
  unfold dequeSum
  split
  · exact Arrived.returns right _
  · next queue found =>
    have removed := ledger_leaveQueue id found
    split
    · apply arrived_dequeRest
      · rw [removed]
        exact right
      · rw [removed]
        exact positive
    · apply arrived_dequeRest
      · rw [ledger_unlock, removed]
        exact right
      · rw [ledger_unlock, removed]
        exact positive

theorem right_unlistJob (found : data.server.queues name = some queue) :
    (data.setServer (data.server.setQueue name
      (queue.unlistJob id (data.server.jobs id).jiState))).ledger.Right template owed := by
  have listed := ledger_queues found
  have agrees := right.queues name queue.count listed
  rw [ledger_setQueue, setServer_self]
  apply right.setQueue listed
  unfold Queue.unlistJob
  split
  · next mem => exact agrees.erase mem
  · exact agrees

/-- The counters of the queue do not become negative. -/
theorem unlistJob_not_negative (found : data.server.queues name = some queue) :
    (decide (id ∈ queue.quJobs) &&
      ((queue.unlistJob id (data.server.jobs id).jiState).quNumjobs < 0 ||
        (queue.unlistJob id (data.server.jobs id).jiState).quNjstate
          (data.server.jobs id).jiState < 0)) = false := by
  have agrees := right.queues name queue.count (ledger_queues found)
  by_cases mem : id ∈ queue.quJobs
  · have total : 0 < queue.quNumjobs := agrees.tally.total_pos mem
    have state := agrees.tally.counts_pos mem
    change 0 < queue.quNjstate (data.server.jobs id).jiState - 0 at state
    unfold Queue.unlistJob
    rw [if_pos mem]
    simp only [countState_eq_adjust, adjust_apply, if_true, Bool.and_eq_false_iff,
      Bool.or_eq_false_iff, decide_eq_false_iff_not]
    omega
  · simp [mem]

theorem arrived_dequeJobs (positive : around.alljobsBusy = false → NoRecount data.ledger id)
    (held : Bool) : Arrived template owed (data.dequeJobs id name held around) := by
  unfold dequeJobs
  split
  · exact Arrived.returns right _
  · next queue found =>
    dsimp only
    rw [unlistJob_not_negative right found]
    split
    · exact Arrived.waits (right_unlistJob right found) rfl rfl
    · exact arrived_dequeSum (right_unlistJob right found) positive held

end

theorem ledger_uncount (id : Name) (found : data.server.queues name = some queue) :
    (data.setServer (data.server.uncount id name queue)).ledger = data.ledger :=
  ledger_kept id found rfl rfl rfl

section

variable (right : data.ledger.Right template owed)
  (positive : around.alljobsBusy = false → NoRecount data.ledger id) (held : Bool)
include right positive

theorem arrived_dequeQueue : Arrived template owed (data.dequeQueue id name held around) := by
  unfold dequeQueue
  split
  · exact Arrived.returns right _
  · next queue found =>
    have uncounted := ledger_uncount id found
    split
    · refine Arrived.waits ?_ rfl trivial
      rw [← uncounted] at right
      exact right
    · apply arrived_dequeJobs
      · rw [← uncounted] at right
        exact right
      · rw [← uncounted] at positive
        exact positive

theorem arrived_deque : Arrived template owed (data.deque id held around) := by
  unfold deque
  dsimp only
  split
  · exact Arrived.returns right _
  · split
    · split
      · exact arrived_dequeRest right positive none
      · exact Arrived.returns right _
    · split
      · exact Arrived.waits right rfl trivial
      · exact arrived_dequeQueue right positive held

end

/-! ### `svr_setjobstate` -/

section

variable (ledger : Ledger) (id : Name) (pque : Option Name)

/-- The job is in `alljobs`, and in the list of one queue or of none. -/
def InPlace : Prop :=
  id ∈ ledger.all.list ∧
    ∀ name ∈ ledger.names, ∀ count ∈ ledger.queues name, id ∈ count.list ↔ pque = some name
deriving Decidable

/-- The job is in no list. -/
def InNoList : Prop :=
  id ∉ ledger.all.list ∧ ∀ name ∈ ledger.names, ∀ count ∈ ledger.queues name, id ∉ count.list
deriving Decidable

/-- The counters of the queue of a job are moved. -/
def Ledger.moveQueue (newstate : JobState) : Ledger :=
  match pque with
  | none => ledger
  | some name =>
    match ledger.queues name with
    | none => ledger
    | some count =>
      ledger.putQueue name
        { count with states := moveState count.states (ledger.state id) newstate }

end

/-- The job takes the state that the counters of the server have got already. -/
theorem Ledger.Right.settle
    (right : ledger.Right template fun s => owed s + movement (ledger.state id) newstate s)
    (inPlace : InPlace ledger id pque) :
    ((ledger.moveQueue id pque newstate).putState id newstate).Right template owed := by
  obtain ⟨inAll, inQueues⟩ := inPlace
  have other : ∀ name count, ledger.queues name = some count → pque ≠ some name →
      count.Right (update ledger.state id newstate) template fun _ => 0 := by
    intro name count found ne
    apply (right.queues name count found).update_of_not_mem
    intro mem
    exact ne ((inQueues name (right.names name count found) count found).1 mem)
  unfold Ledger.moveQueue
  split
  · refine ⟨right.templates, right.all.settle inAll, ?_, right.names⟩
    intro name count found
    exact other name count found nofun
  · next name =>
    split
    · next missing =>
      refine ⟨right.templates, right.all.settle inAll, ?_, right.names⟩
      intro other_ count found
      apply other other_ count found
      rintro ⟨⟩
      exact nomatch missing.symm.trans found
    · next count found =>
      have mem : id ∈ count.list :=
        (inQueues name (right.names name count found) count found).2 rfl
      refine ⟨right.templates, right.all.settle inAll, ?_, ?_⟩
      · intro other_ count_ at_other
        rcases update_some_cases at_other with ⟨rfl, rfl⟩ | ⟨ne, at_other⟩
        · exact (right.queues other_ count found).move mem newstate
        · apply other other_ count_ at_other
          rintro ⟨⟩
          exact ne rfl
      · exact forall_update_some (right.names name count found) right.names

theorem ledger_setJobstateBasic (data : CallData) (id : Name) (newstate : JobState)
    (newsubstate : Substate) (around : Surroundings) :
    (data.setJobstateBasic id newstate newsubstate around).1.ledger =
      data.ledger.putState id newstate :=
  ledger_putJob data data.server id rfl

theorem arrived_setJobstateBasic (right : (data.ledger.putState id newstate).Right template owed) :
    Arrived template owed (data.setJobstateBasic id newstate newsubstate around) := by
  rw [← ledger_setJobstateBasic data id newstate newsubstate around] at right
  exact Arrived.returns right around.save

/-- The counters of the queue of a job that is not a template and changes its state. -/
theorem ledger_moveInQueue (changes : (data.server.jobs id).jiState ≠ newstate)
    (job : (data.server.jobs id).jiIsArrayTemplate = false) :
    (data.moveInQueue id newstate pque).ledger = data.ledger.moveQueue id pque newstate := by
  have bits : (data.setServer (data.server.setJob id
      ((data.server.jobs id).moveJob newstate pque.isSome))).ledger = data.ledger :=
    ledger_setJob data data.server id rfl rfl
  unfold moveInQueue Ledger.moveQueue
  rw [if_neg (by simp [changes, job])]
  cases pque with
  | none => exact bits
  | some name =>
    dsimp only
    cases found : data.server.queues name with
    | none =>
      have missing : data.ledger.queues name = none := congrArg (Option.map Queue.count) found
      rw [missing]
      exact bits
    | some queue =>
      rw [ledger_queues found]
      refine (ledger_setQueue data _ name _).trans ?_
      exact congrArg (fun ledger => Ledger.putQueue ledger name
        (queue.moveJob (data.server.jobs id) newstate).count) bits

/-- A template changes its state: it is in no list. -/
theorem Ledger.Right.putState_of_template (right : ledger.Right template owed)
    (isTemplate : template id = true) (newstate : JobState) :
    (ledger.putState id newstate).Right template owed := by
  apply right.setState
  · intro mem
    rw [right.all.jobs id mem] at isTemplate
    exact nomatch isTemplate
  · intro name count found mem
    rw [(right.queues name count found).jobs id mem] at isTemplate
    exact nomatch isTemplate

/-- From the lock of the queue on, for a job whose counters in the server were moved. -/
theorem arrived_setQueueState
    (right : data.ledger.Right template fun s => owed s +
      (if template id then fun _ => 0 else movement (data.ledger.state id) newstate) s)
    (changes : template id = false → data.ledger.state id ≠ newstate)
    (inPlace : template id = false → InPlace data.ledger id pque) :
    Arrived template owed (data.setQueueState id newstate newsubstate around pque) := by
  have same := right.isTemplate id
  apply arrived_setJobstateBasic
  cases kind : template id with
  | true =>
    rw [kind] at same
    unfold moveInQueue
    rw [if_pos (.inr same)]
    simp only [kind, if_true, Int.add_zero] at right
    exact right.putState_of_template kind newstate
  | false =>
    rw [kind] at same
    rw [ledger_moveInQueue (changes kind) same]
    simp only [kind, Bool.false_eq_true, if_false] at right
    exact right.settle (inPlace kind)

/-- Where the state of a job changes, it is counted. -/
@[mk_iff]
structure SetsCounted (data : CallData) (id : Name) (newstate : JobState) (held : Bool)
    (around : Surroundings) : Prop where
  /-- A new job is not listed yet. -/
  fresh : data.substates id = .transicm → InNoList data.ledger id
  /-- A job whose queue is free is where the call believes it to be. -/
  inPlace : data.substates id ≠ .transicm →
    (∀ name ∈ (data.server.jobs id).jiQhdr,
      held = true ∨ (around.queueBusy = false ∧ data.locked name = false)) →
    InPlace data.ledger id (data.server.jobs id).jiQhdr

/-- The counters of the server are ahead of the job. -/
theorem right_moveInServer (right : data.ledger.Right template owed) (id : Name)
    (newstate : JobState) :
    (data.moveInServer id newstate).ledger.Right template (fun s => owed s +
      (if template id then fun _ => 0 else movement (data.ledger.state id) newstate) s) := by
  have same := right.isTemplate id
  cases kind : template id with
  | true =>
    rw [kind] at same
    unfold moveInServer
    rw [if_pos same]
    simpa using right
  | false =>
    rw [kind] at same
    unfold moveInServer
    dsimp only
    rw [same, if_neg Bool.false_ne_true]
    exact right.setAll (right.all.owe _ newstate)

/-- Nothing but the counters of the server is moved. -/
theorem exists_moveInServer (data : CallData) (id : Name) (newstate : JobState) :
    ∃ states, data.moveInServer id newstate =
      data.setServer { data.server with svJobstates := states } := by
  unfold moveInServer
  dsimp only
  split
  · exact ⟨data.server.svJobstates, rfl⟩
  · exact ⟨_, rfl⟩

theorem arrived_setState (right : data.ledger.Right template owed) {held : Bool}
    (counted : isValidStateTransition (data.server.jobs id).jiState (data.substates id) newstate
      newsubstate = true → data.ledger.state id ≠ newstate → template id = false →
        SetsCounted data id newstate held around) :
    Arrived template owed (data.setState id newstate newsubstate around held) := by
  unfold setState
  dsimp only
  split
  · exact Arrived.returns right _
  · next valid =>
    rw [Bool.not_eq_false] at valid
    split
    · next basic =>
      apply arrived_setJobstateBasic
      by_cases changes : data.ledger.state id = newstate
      · subst changes
        rw [Ledger.putState, update_eq_self]
        exact right
      · cases kind : template id with
        | true => exact right.putState_of_template kind newstate
        | false =>
          obtain ⟨notAll, notQueued⟩ :=
            (counted valid changes kind).fresh (basic.resolve_right changes)
          apply right.setState notAll
          intro name count found
          exact notQueued name (right.names name count found) count found
    · next counts =>
      rw [not_or] at counts
      obtain ⟨notNew, changes⟩ := counts
      have moved := right_moveInServer right id newstate
      obtain ⟨states, eq⟩ := exists_moveInServer data id newstate
      rw [eq] at moved ⊢
      split
      · next unqueued =>
        apply arrived_setQueueState moved
        · exact fun _ => changes
        · intro kind
          rw [← unqueued]
          apply (counted valid changes kind).inPlace notNew
          rw [unqueued]
          exact nofun
      · next name qhdr =>
        split
        · exact ⟨moved, changes⟩
        · next free =>
          apply arrived_setQueueState moved
          · exact fun _ => changes
          · intro kind
            rw [← qhdr]
            apply (counted valid changes kind).inPlace notNew
            rw [qhdr]
            rintro other ⟨⟩
            cases held with
            | true => exact .inl rfl
            | false =>
              simp only [true_and, not_or, Bool.not_eq_true] at free
              exact .inr free

/-! ### Calls that go on -/

/-- What a call meets when it goes on. -/
def ResumesCounted (data : CallData) (around : Surroundings) : Call → Prop
  | .enqueFind id quename prevJobId haveReservation beingRecovered =>
    ListsJob data id quename haveReservation beingRecovered → data.ledger.template id = false →
      Enters data.ledger id prevJobId
  | .enqueRank id name => MetByRank data id name
  | .dequeQueue id _ => around.alljobsBusy = false → NoRecount data.ledger id
  | .dequeJobs id _ _ => around.alljobsBusy = false → NoRecount data.ledger id
  | .dequeSum id _ _ _ => around.alljobsBusy = false → NoRecount data.ledger id
  | .dequeAlljobs id _ _ => NoRecount data.ledger id
  -- the job is in the state that the counters of the server were moved from
  | .setState id name oldstate _ _ =>
    data.ledger.template id = false →
      data.ledger.state id = oldstate ∧ InPlace data.ledger id (some name)
  | _ => True

/-- A call that waited in `get_jobs_queue` sets the state. -/
theorem arrived_resume_setState {oldstate : JobState}
    (right : data.ledger.Right template fun s => owed s +
      (Call.setState id name oldstate newstate newsubstate).owes template s)
    (changes : oldstate ≠ newstate)
    (counted : template id = false →
      data.ledger.state id = oldstate ∧ InPlace data.ledger id (some name)) :
    Arrived template owed
      (data.resume around (.setState id name oldstate newstate newsubstate)) := by
  dsimp only [resume]
  split
  · apply arrived_setQueueState
    · cases kind : template id with
      | true => simpa [Call.owes, kind] using right
      | false =>
        obtain ⟨same, -⟩ := counted kind
        simpa [Call.owes, kind, same] using right
    · intro kind
      rw [(counted kind).1]
      exact changes
    · exact fun kind => (counted kind).2
  · next lost =>
    apply Arrived.returns
    cases kind : template id with
    | true => simpa [Call.owes, kind] using right
    | false =>
      obtain ⟨-, inAll, -⟩ := counted kind
      have found : id ∈ data.server.alljobs := inAll
      simp [ServerState.svrFindJob, found] at lost

theorem arrived_resume (right : data.ledger.Right template fun s => owed s + call.owes template s)
    (sound : call.Sound template) (counted : ResumesCounted data around call) :
    Arrived template owed (data.resume around call) := by
  have templates := right.templates
  cases call
  case setState id name oldstate newstate newsubstate =>
    apply arrived_resume_setState right sound
    rw [← templates]
    exact counted
  -- every other call owes nothing
  all_goals simp only [Call.owes, Int.add_zero] at right
  case enqueFind id quename prevJobId haveReservation beingRecovered =>
    apply arrived_enqueFind right
    rw [← templates]
    exact counted
  case enqueSummary id name => exact arrived_enqueSummary right
  case enqueRank id name => exact arrived_enqueRank right sound counted
  case enqueSum id name => exact arrived_enqueSum right
  case dequeQueue id name =>
    dsimp only [resume]
    split
    · exact arrived_dequeQueue right counted false
    · exact Arrived.returns right _
  case dequeJobs id name held =>
    dsimp only [resume]
    split
    · exact arrived_dequeJobs right counted held
    · apply Arrived.returns
      rwa [ledger_unlockHeld]
  case dequeSum id name held badCt =>
    obtain rfl : badCt = false := sound
    dsimp only [resume]
    split
    · exact arrived_dequeSum right counted held
    · apply Arrived.returns
      rwa [ledger_unlockHeld]
  case dequeAlljobs id held badCt =>
    obtain rfl : badCt = false := sound
    dsimp only [resume]
    split
    · exact arrived_dequeAlljobs right counted held
    · apply Arrived.returns
      rwa [ledger_unlockHeld]

end

/-! ## Runs -/

/-- The counters agree with the lists, and no job is listed twice in a list. -/
structure CountsAgree (server : ServerState) : Prop where
  svNumjobs : server.svNumjobs = server.alljobs.length
  svJobstates : ∀ state, server.svJobstates state =
    server.alljobs.countP fun id => (server.jobs id).jiState = state
  quNumjobs : ∀ name queue, server.queues name = some queue →
    queue.quNumjobs = queue.quJobs.length
  quNjstate : ∀ name queue, server.queues name = some queue → ∀ state,
    queue.quNjstate state = queue.quJobs.countP fun id => (server.jobs id).jiState = state
  alljobs : server.alljobs.Nodup
  quJobs : ∀ name queue, server.queues name = some queue → queue.quJobs.Nodup

/-- An event meets none of the situations in which jobs are counted wrongly. -/
def KeepsCounts (system : CallSystem) : CallEvent → Prop
  | .enque _ _ _ _ _ => True
  | .deque id _ around => around.alljobsBusy = false → NoRecount system.data.ledger id
  | .setState id newstate newsubstate held around =>
    isValidStateTransition (system.data.server.jobs id).jiState (system.data.substates id)
      newstate newsubstate = true →
    system.data.ledger.state id ≠ newstate → system.data.ledger.template id = false →
      SetsCounted system.data id newstate held around
  | .resume index around =>
    ∀ call ∈ system.calls[index]?, system.data.isBlocked call = false →
      ResumesCounted system.data around call

section

variable (data : CallData) (id : Name) (around : Surroundings)

instance (newstate : JobState) (held : Bool) :
    Decidable (SetsCounted data id newstate held around) :=
  decidable_of_iff _ (setsCounted_iff data id newstate held around).symm

instance (call : Call) : Decidable (ResumesCounted data around call) := by
  cases call <;> unfold ResumesCounted <;> infer_instance

instance (system : CallSystem) (event : CallEvent) : Decidable (KeepsCounts system event) := by
  cases event <;> unfold KeepsCounts <;> infer_instance

end

/-- What the calls in progress owe together. -/
def owedBy (template : Name → Bool) (calls : List Call) (state : JobState) : Int :=
  (calls.map fun call => call.owes template state).sum

/-- What holds in every state of a run. -/
structure KeptCounts (template : Name → Bool) (system : CallSystem) : Prop where
  right : system.data.ledger.Right template (owedBy template system.calls)
  sound : ∀ call ∈ system.calls, call.Sound template

section

variable {template : Name → Bool} {system : CallSystem} {calls : List Call}

theorem KeptCounts.settle {result : CallData × Outcome}
    (arrived : Arrived template (owedBy template calls) result)
    (sound : ∀ call ∈ calls, call.Sound template) :
    KeptCounts template (system.settle calls result) := by
  obtain ⟨data, outcome⟩ := result
  cases outcome with
  | waits call =>
    constructor
    · have owed : owedBy template (calls ++ [call]) =
          fun s => owedBy template calls s + call.owes template s := by
        funext s
        simp [owedBy]
      dsimp only [CallSystem.settle]
      rw [owed]
      exact arrived.right
    · exact forall_mem_append.2 ⟨sound, forall_mem_singleton.2 arrived.sound⟩
  | returns code =>
    constructor
    · have right := arrived.right
      simp only [Outcome.owes, Int.add_zero] at right
      exact right
    · exact sound

/-- What a call owes is part of what all calls owe. -/
theorem owedBy_eraseIdx {index : Nat} {call : Call}
    (found : calls[index]? = some call) (state : JobState) :
    owedBy template calls state =
      owedBy template (calls.eraseIdx index) state + call.owes template state := by
  obtain ⟨bound, rfl⟩ := List.getElem?_eq_some_iff.1 found
  have perm := (getElem_cons_eraseIdx_perm bound).map fun call => call.owes template state
  rw [owedBy, ← perm.sum_eq, map_cons, sum_cons, Int.add_comm]
  rfl

theorem KeptCounts.callStep (kept : KeptCounts template system) {event : CallEvent}
    (counted : KeepsCounts system event) : KeptCounts template (callStep system event) := by
  have templates := kept.right.templates
  unfold Server.callStep
  cases event with
  | enque id quename prevJobId haveReservation beingRecovered =>
    apply KeptCounts.settle _ kept.sound
    refine Arrived.waits ?_ rfl trivial
    rw [ledger_setJob _ _ id]
    · exact kept.right
    · rfl
    · rfl
  | deque id held around =>
    dsimp only
    split
    · exact KeptCounts.settle (arrived_deque kept.right counted held) kept.sound
    · exact kept
  | setState id newstate newsubstate held around =>
    dsimp only
    split
    · apply KeptCounts.settle _ kept.sound
      apply arrived_setState kept.right
      rw [← templates]
      exact counted
    · exact kept
  | resume index around =>
    dsimp only
    split
    · exact kept
    · next call found =>
      split
      · exact kept
      · next free =>
        rw [Bool.not_eq_true] at free
        have mem := mem_of_getElem? found
        apply KeptCounts.settle
        · apply arrived_resume _ (kept.sound call mem) (counted call found free)
          rw [← funext (owedBy_eraseIdx found)]
          exact kept.right
        · intro other memOther
          exact kept.sound other (mem_of_mem_eraseIdx memOther)

theorem keptCounts_new (queues : List (Name × Queue)) (jobs : Name → Job)
    (substates : Name → Substate) :
    KeptCounts (CallSystem.new queues jobs substates).data.ledger.template
      (CallSystem.new queues jobs substates) where
  right := by
    refine ⟨rfl, ⟨?_, nodup_nil, nofun⟩, ?_, ?_⟩
    · exact (Tally.nil _).congr fun _ => rfl
    · intro name count found
      obtain ⟨queue, isQueue, rfl⟩ := Option.map_eq_some_iff.1 found
      obtain ⟨old, -, rfl⟩ := Option.map_eq_some_iff.1 isQueue
      exact ⟨(Tally.nil _).congr fun _ => rfl, nodup_nil, nofun⟩
    · intro name count found
      obtain ⟨queue, isQueue, -⟩ := Option.map_eq_some_iff.1 found
      obtain ⟨old, listed, -⟩ := Option.map_eq_some_iff.1 isQueue
      obtain ⟨before, after, split, -⟩ := lookup_eq_some_iff.1 listed
      apply mem_map.2
      exact ⟨(name, old), by rw [split]; exact mem_append_right _ mem_cons_self, rfl⟩
  sound := nofun

/-- Without calls in progress nothing is owed. -/
theorem KeptCounts.countsAgree (kept : KeptCounts template system) (quiet : system.calls = []) :
    CountsAgree system.data.server := by
  have right := kept.right
  rw [quiet] at right
  have queued {name : Name} {queue : Queue}
      (found : system.data.server.queues name = some queue) :=
    right.queues name queue.count (ledger_queues found)
  constructor
  · exact right.all.tally.total
  · intro state
    have counts := right.all.tally.counts state
    simp only [owedBy, map_nil, sum_nil, Int.sub_zero] at counts
    exact counts
  · intro name queue found
    exact (queued found).tally.total
  · intro name queue found state
    have counts := (queued found).tally.counts state
    simp only [Int.sub_zero] at counts
    exact counts
  · exact right.all.nodup
  · intro name queue found
    exact (queued found).nodup

end

/-- In every run in which no event meets one of the situations in which jobs are counted
wrongly, all counters agree with the lists whenever no call is in progress. -/
theorem counts_agree_when_quiet (queues : List (Name × Queue)) (jobs : Name → Job)
    (substates : Name → Substate) (events : List CallEvent)
    (counted : Admissible callStep KeepsCounts (CallSystem.new queues jobs substates) events)
    (quiet : (run callStep (CallSystem.new queues jobs substates) events).calls = []) :
    CountsAgree (run callStep (CallSystem.new queues jobs substates) events).data.server := by
  have kept := invariant (KeptCounts _) (keptCounts_new queues jobs substates)
    (fun _ _ kept counted => kept.callStep counted) counted
  exact kept.countsAgree quiet

/-- An execution queue without limits. -/
def openQueue : Queue where
  quType := .execution
  enabled := true
  fromRouteOnly := false
  ghostQueue := false
  maxJobs := none
  maxUserJobs := none
  quReservedJobs := 0
  quNumjobs := 0
  quNjstate := fun _ => 0
  quUih := fun _ => 0
  quJobs := []
  quJobsArraySum := []

/-- A job that is queued. -/
def queuedJob : Job where
  jiState := .queued
  substateComplete := false
  jobArrayRequest := none
  jiArraystructid := []
  jobOwner := ['u']
  jiQueue := []
  jiDestin := []
  jiQhdr := none
  qrank := 0
  qrankSet := false
  dependSet := false
  countedInQueue := false
  countedGlobally := false
  jiLastdest := 0

/-- A server with one queue and two jobs in it. -/
def twoEnqued : List CallEvent :=
  [.enque ['1'] ['q'] none false false, .resume 0 {}, .resume 0 {}, .resume 0 {},
    .enque ['2'] ['q'] none false false, .resume 0 {}, .resume 0 {}, .resume 0 {}]

/-- A job starts while its queue is busy, and another one leaves meanwhile. -/
theorem counts_agree_when_quiet_two :
    let start := CallSystem.new [(['q'], openQueue)] (fun _ => queuedJob) (fun _ => .other 10)
    let events := twoEnqued ++
      [.setState ['1'] .running (.other 42) false { queueBusy := true }, .deque ['2'] false {},
        .resume 0 {}]
    (run callStep start events).data.server.alljobs = [['1']] ∧
      CountsAgree (run callStep start events).data.server := by
  constructor
  · decide +kernel
  · apply counts_agree_when_quiet
    · decide +kernel
    · decide +kernel

/-- Two calls change the state of a job at the same time.  The first one has moved the
counters of the server when it waits for the queue, and the second one moves them again from
the same state: another job is left that is queued but not counted. -/
theorem state_counted_from_twice :
    ¬ ∀ (queues : List (Name × Queue)) (jobs : Name → Job) (substates : Name → Substate)
      (events : List CallEvent),
      (run callStep (CallSystem.new queues jobs substates) events).calls = [] →
      CountsAgree (run callStep (CallSystem.new queues jobs substates) events).data.server := by
  intro always
  have agree := always [(['q'], openQueue)] (fun _ => queuedJob) (fun _ => .other 10)
    (twoEnqued ++
      [.setState ['1'] .running (.other 42) false { queueBusy := true },
        .setState ['1'] .held (.other 20) false {}, .resume 0 {}])
    (by decide +kernel)
  have queued := agree.svJobstates .queued
  revert queued
  decide +kernel

end Torque.Server
