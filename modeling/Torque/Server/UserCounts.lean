import Torque.Server.RollCalls

/-!
# The jobs of a user

Every queue has a table that says for each user how many jobs are queued, and the server has
one for all queues.  A job that is counted carries a bit for either table.  It is counted when
it enters a queue, and no longer counted when it completes or leaves its queue.

A job that completes while it is in transit is still counted in its queue, and a job that has
completed is not counted when it is queued again.  Neither is counted a job whose substate is
`JOB_SUBSTATE_TRANSICM` when its state changes, nor one that enters a queue while it is in
another.  In all other runs the tables are right.
-/

namespace Torque.Server

open Torque.Structure Torque.Transition

/-! ## Runs -/

/-- A call that nothing interrupts.  The caller of `svr_enquejob` has set `ji_queue`; `held` says
that the caller holds the queue of the job. -/
inductive WholeCall where
  | enque (id quename : Name) (prevJobId : Option Name) (haveReservation beingRecovered : Bool)
      (depend : Pbse)
  | deque (id : Name) (held : Bool)
  | setState (id : Name) (newstate : JobState) (newsubstate : Substate) (held : Bool)

/-- `ji_queue` is set. -/
def ServerState.setJiQueue (server : ServerState) (id quename : Name) : ServerState :=
  server.setJob id { server.jobs id with jiQueue := quename }

/-- One call, with all locks free. -/
def wholeStep (data : CallData) : WholeCall → CallData
  | .enque id quename prevJobId haveReservation beingRecovered depend =>
    data.setServer (svrEnquejob (data.server.setJiQueue id quename) id prevJobId haveReservation
      beingRecovered depend).2
  | .deque id held => (data.deque id held {}).1
  | .setState id newstate newsubstate held =>
    (data.setState id newstate newsubstate {} held).1

/-- The job has not completed. -/
def ServerState.isQueued (server : ServerState) (id : Name) : Bool :=
  decide ((server.jobs id).jiState ≠ .complete)

/-- The job has not completed and belongs to the user. -/
def ServerState.isQueuedOf (server : ServerState) (user id : Name) : Bool :=
  server.isQueued id && decide ((server.jobs id).user = user)

/-- The table of a queue has the number of jobs of each user that are in the queue and not
complete, and the table of the server the number of those in any queue. -/
structure UsersCounted (server : ServerState) : Prop where
  inQueue : ∀ name queue, server.queues name = some queue → ∀ user,
    queue.quUih user = {id | id ∈ queue.quJobs ∧ server.isQueuedOf user id = true}.ncard
  inServer : ∀ user, server.users user =
    {id | (∃ name queue, server.queues name = some queue ∧ id ∈ queue.quJobs) ∧
      server.isQueuedOf user id = true}.ncard

/-- A call counts the jobs as it should. -/
def CountsJobs (data : CallData) : WholeCall → Prop
  | .enque id quename _ haveReservation beingRecovered _ =>
    EntersOnce data.server id quename haveReservation beingRecovered
  | .deque _ _ => True
  | .setState id newstate newsubstate _ => CompletesCounted data id newstate newsubstate

/-- Between two calls the roll is right and no queue is locked. -/
structure RollKept (data : CallData) : Prop where
  right : data.server.roll.Right
  free : ∀ name, data.locked name = false

variable {server : ServerState}

theorem isQueuedOf_iff {user id : Name} : server.isQueuedOf user id = true ↔
      server.roll.state id ≠ .complete ∧ server.roll.user id = user := by
  unfold ServerState.isQueuedOf ServerState.isQueued
  rw [Bool.and_eq_true, decide_eq_true_eq, decide_eq_true_eq]
  rfl

theorem Roll.Right.usersCounted (right : server.roll.Right) : UsersCounted server where
  inQueue := by
    intro name queue found user
    rw [← roll_table found, (right.table name).count user]
    refine congrArg Set.ncard (Set.ext fun id => ?_)
    change (id ∈ server.roll.list name ∧ _) ∧ _ ↔ id ∈ queue.quJobs ∧ _
    rw [isQueuedOf_iff, roll_list found, and_assoc]
  inServer := by
    intro user
    refine (right.users.count user).trans (congrArg Set.ncard (Set.ext fun id => ?_))
    constructor
    · rintro ⟨⟨active, name, mem⟩, owned⟩
      obtain ⟨queue, found, mem⟩ := mem_roll_list mem
      exact ⟨⟨name, queue, found, mem⟩, isQueuedOf_iff.mpr ⟨active, owned⟩⟩
    · rintro ⟨⟨name, queue, found, mem⟩, isQueued⟩
      obtain ⟨active, owned⟩ := isQueuedOf_iff.mp isQueued
      refine ⟨⟨active, name, ?_⟩, owned⟩
      rw [roll_list found]
      exact mem

theorem rollKept_new (queues : List (Name × Queue)) (jobs : Name → Job)
    (substates : Name → Substate) : RollKept (CallSystem.new queues jobs substates).data := by
  have empty : ∀ name,
      (CallSystem.new queues jobs substates).data.server.roll.list name = [] := by
    intro name
    change (((queues.lookup name).map Queue.emptied).elim [] Queue.quJobs) = []
    cases queues.lookup name <;> rfl
  have table : ∀ name,
      (CallSystem.new queues jobs substates).data.server.roll.table name = fun _ => 0 := by
    intro name
    change (((queues.lookup name).map Queue.emptied).elim (fun _ => 0) Queue.quUih) = fun _ => 0
    cases queues.lookup name <;> rfl
  have idle : ∀ id, ¬ (CallSystem.new queues jobs substates).data.server.roll.Active id := by
    rintro id ⟨_, name, mem⟩
    rw [empty] at mem
    cases mem
  refine ⟨?_, fun _ => rfl⟩
  constructor
  iterate 2
    · intro name
      rw [empty]
      exact .nil
  iterate 2
    · intro name id mem
      rw [empty] at mem
      cases mem
  iterate 2
    · intro id
      exact iff_of_false Bool.false_ne_true (idle id)
  · intro name
    rw [table]
    refine (Headcount.empty _).congr (Set.ext fun id => iff_of_false ?_ (Set.notMem_empty id))
    rintro ⟨mem, _⟩
    rw [empty] at mem
    cases mem
  · exact (Headcount.empty _).congr (Set.ext fun id => iff_of_false (idle id) (Set.notMem_empty id))

theorem RollKept.wholeStep {data : CallData} {call : WholeCall} (kept : RollKept data)
    (counts : CountsJobs data call) : RollKept (wholeStep data call) := by
  obtain ⟨right, free⟩ := kept
  cases call with
  | enque id quename prevJobId haveReservation beingRecovered depend =>
    have same : (data.server.setJiQueue id quename).roll = data.server.roll := by
      unfold ServerState.setJiQueue
      rw [roll_setJob data.server id { data.server.jobs id with jiQueue := quename } rfl rfl rfl]
      exact data.server.roll.putJob_self id
    have isJob : (data.server.setJiQueue id quename).jobs id =
        { data.server.jobs id with jiQueue := quename } := Function.update_self ..
    refine ⟨right_svrEnquejob (same ▸ right) ?_ prevJobId depend, free⟩
    rw [isJob]
    intro found isFound open_ limit
    rw [isJob] at limit
    have listed := counts found isFound open_ limit
    unfold ListedAt at listed ⊢
    rw [isJob]
    exact listed
  | deque id held =>
    obtain ⟨right, locked⟩ := @right_deque data id right free held
    exact ⟨right, locked ▸ free⟩
  | setState id newstate newsubstate held =>
    obtain ⟨right, locked⟩ := right_setState right free counts held
    exact ⟨right, locked ▸ free⟩

/-- In every run in which no call meets one of the situations in which a job is not counted as it
should, both tables are right. -/
theorem users_counted (queues : List (Name × Queue)) (jobs : Name → Job)
    (substates : Name → Substate) (calls : List WholeCall)
    (counts : Admissible wholeStep CountsJobs (CallSystem.new queues jobs substates).data calls) :
    UsersCounted (run wholeStep (CallSystem.new queues jobs substates).data calls).server := by
  have kept : RollKept (run wholeStep (CallSystem.new queues jobs substates).data calls) := by
    refine invariant RollKept (rollKept_new queues jobs substates) ?_ counts
    intro data call kept counts
    exact kept.wholeStep counts
  exact kept.right.usersCounted

/-- A job enters the queue, runs and completes. -/
def runsToEnd : List WholeCall :=
  [.enque ['1'] ['q'] none false false .none, .setState ['1'] .running (.other 42) false,
    .setState ['1'] .complete .complete false]

theorem users_counted_runsToEnd :
    let start := (CallSystem.new [(['q'], openQueue)] (fun _ => queuedJob) fun _ => .other 10).data
    (run wholeStep start runsToEnd).server.alljobs = [['1']] ∧
      UsersCounted (run wholeStep start runsToEnd).server := by
  refine ⟨by decide +kernel, users_counted _ _ _ _ ⟨?_, ?_, ?_, trivial⟩⟩
  · intro found _ _ _ _ other queue isQueue mem
    obtain ⟨name, _, rfl⟩ := Option.map_eq_some_iff.mp isQueue
    cases mem
  all_goals
    intro name queue _ _ _ _
    decide +kernel

/-- A job that has completed is queued again, and is not counted. -/
theorem requeued_not_counted :
    ¬ ∀ (queues : List (Name × Queue)) (jobs : Name → Job) (substates : Name → Substate)
      (calls : List WholeCall), (∀ id, (jobs id).jiIsArrayTemplate = false) →
      UsersCounted (run wholeStep (CallSystem.new queues jobs substates).data calls).server := by
  intro always
  have counted := always [(['q'], openQueue)] (fun _ => queuedJob) (fun _ => .other 10)
    (runsToEnd ++ [.setState ['1'] .queued (.other 10) false]) fun _ => rfl
  generalize isServer : (run wholeStep (CallSystem.new [(['q'], openQueue)] (fun _ => queuedJob)
    fun _ => .other 10).data (runsToEnd ++ [.setState ['1'] .queued (.other 10) false])).server =
      server at counted
  have queues : (server.queues ['q']).map Queue.quJobs = some [['1']] := by
    rw [← isServer]
    decide +kernel
  have tables : (server.queues ['q']).map (fun queue => queue.quUih ['u']) = some 0 := by
    rw [← isServer]
    decide +kernel
  have queued : server.isQueuedOf ['u'] ['1'] = true := by
    rw [← isServer]
    decide +kernel
  obtain ⟨queue, found, list⟩ := Option.map_eq_some_iff.mp queues
  have count := counted.inQueue ['q'] queue found ['u']
  have zero : queue.quUih ['u'] = 0 := by
    rw [found] at tables
    exact Option.some.inj tables
  have one : {id | id ∈ queue.quJobs ∧ server.isQueuedOf ['u'] id = true} = {['1']} := by
    ext id
    constructor
    · rintro ⟨mem, _⟩
      rw [list] at mem
      exact List.mem_singleton.mp mem
    · rintro rfl
      exact ⟨list ▸ List.mem_singleton_self _, queued⟩
  rw [zero, one, Set.ncard_singleton] at count
  cases count

end Torque.Server
