import Torque.Server.CallCounts
import Torque.Server.Roll

/-!
# What the calls do to the roll

`svr_enquejob`, `svr_dequejob` and `svr_setjobstate`, with all locks free, as changes of the
roll.  Each of them keeps it right, on a condition that says in which situations jobs are
counted as they should.
-/

namespace Torque.Server

open Torque.Insertion Function CallData ServerState

/-! ## The roll of the server -/

/-- The roll of the server; a queue that does not exist has no jobs. -/
def ServerState.roll (server : ServerState) : Roll where
  user := fun id => (server.jobs id).user
  rank := fun id => (server.jobs id).qrank
  template := fun id => (server.jobs id).jiIsArrayTemplate
  state := fun id => (server.jobs id).jiState
  hdr := fun id => (server.jobs id).jiQhdr
  inQueue := fun id => (server.jobs id).countedInQueue
  inServer := fun id => (server.jobs id).countedGlobally
  list := fun name => (server.queues name).elim [] Queue.quJobs
  table := fun name => (server.queues name).elim (fun _ => 0) Queue.quUih
  users := server.users

section

variable {server : ServerState} {id name : Name} {queue : Queue} {α : Type} {list : List Name}

theorem roll_list (found : server.queues name = some queue) :
    server.roll.list name = queue.quJobs := by
  change (server.queues name).elim _ _ = _
  rw [found]
  rfl

theorem roll_table (found : server.queues name = some queue) :
    server.roll.table name = queue.quUih := by
  change (server.queues name).elim _ _ = _
  rw [found]
  rfl

theorem mem_roll_list (mem : id ∈ server.roll.list name) :
    ∃ queue, server.queues name = some queue ∧ id ∈ queue.quJobs := by
  change id ∈ (server.queues name).elim [] Queue.quJobs at mem
  cases found : server.queues name with
  | none =>
    rw [found] at mem
    cases mem
  | some queue =>
    rw [found] at mem
    exact ⟨queue, rfl, mem⟩

/-- A field of the queues when one of them changes. -/
theorem elim_update (queues : Name → Option Queue) (name : Name) (queue : Queue) (other : α)
    (field : Queue → α) :
    (fun at_ => (update queues name (some queue) at_).elim other field) =
      update (fun at_ => (queues at_).elim other field) name (field queue) := by
  funext at_
  exact apply_update (fun _ entry => Option.elim entry other field) queues name _ at_

theorem roll_setQueue (server : ServerState) (name : Name) (queue : Queue) :
    (server.setQueue name queue).roll = server.roll.putQueue name queue.quJobs queue.quUih := by
  have list := elim_update server.queues name queue [] Queue.quJobs
  have table := elim_update server.queues name queue (fun _ => 0) Queue.quUih
  unfold roll setQueue Roll.putQueue
  rw [list, table]

/-- A queue changes, but not its list and its table. -/
theorem roll_setQueue_of_same {queue' : Queue} (found : server.queues name = some queue)
    (list : queue'.quJobs = queue.quJobs) (table : queue'.quUih = queue.quUih) :
    (server.setQueue name queue').roll = server.roll := by
  rw [roll_setQueue, list, table, ← roll_list found, ← roll_table found, Roll.putQueue_relist,
    Roll.relist_self]

/-- A field of the jobs when one of them changes. -/
theorem field_update (jobs : Name → Job) (id : Name) (job : Job) (field : Job → α) :
    (fun other => field (update jobs id job other)) =
      update (fun other => field (jobs other)) id (field job) :=
  comp_update field jobs id job

theorem roll_setJob (server : ServerState) (id : Name) (job : Job)
    (user : job.user = (server.jobs id).user) (rank : job.qrank = (server.jobs id).qrank)
    (template : job.jiIsArrayTemplate = (server.jobs id).jiIsArrayTemplate) :
    (server.setJob id job).roll =
      server.roll.putJob id job.jiState job.jiQhdr job.countedInQueue job.countedGlobally := by
  unfold roll setJob Roll.putJob
  rw [field_update, field_update, field_update, field_update, field_update, field_update,
    field_update, user, rank, template]
  simp only [update_eq_self]

/-! ## Entering a queue -/

theorem roll_intoSummary (found : server.queues name = some queue) (depend : Pbse) :
    (server.intoSummary id name queue depend).2.roll = server.roll := by
  unfold intoSummary
  dsimp only
  split
  · split
    · rfl
    · rfl
    · exact roll_setQueue_of_same found rfl rfl
  · rfl

theorem roll_intoQueue (server : ServerState) (id name : Name) (queue : Queue) (list : List Name) :
    (server.intoQueue id name queue list).roll =
      ((server.roll.putJob id (server.roll.state id) (server.roll.hdr id)
        (incrementCounted (server.jobs id) (server.jobs id).countedInQueue)
        (incrementCounted (server.jobs id) (server.jobs id).countedGlobally)).putQueue name list
        (incrementQueuedJobs queue.quUih (server.jobs id) (server.jobs id).countedInQueue)).putUsers
        (incrementQueuedJobs server.users (server.jobs id) (server.jobs id).countedGlobally) := by
  have placed : (server.intoQueue id name queue list).roll =
      ((server.setJob id (server.jobs id).counted).setQueue name
        (queue.enqueued (server.jobs id) list)).roll.putUsers
        (incrementQueuedJobs server.users (server.jobs id)
          (server.jobs id).countedGlobally) := rfl
  rw [placed, roll_setQueue, roll_setJob server id (server.jobs id).counted rfl rfl rfl]
  rfl

/-- A job that has completed is listed only. -/
theorem roll_intoQueue_complete (found : server.queues name = some queue) (list : List Name)
    (complete : (server.jobs id).jiState = .complete) :
    (server.intoQueue id name queue list).roll = server.roll.relist name list := by
  rw [roll_intoQueue]
  unfold incrementCounted incrementQueuedJobs
  rw [if_pos complete, if_pos complete, if_pos (Or.inl complete), if_pos (Or.inl complete)]
  have job := server.roll.putJob_self id
  have queue := server.roll.putQueue_relist name list
  rw [roll_table found] at queue
  change ((server.roll.putJob id _ _ (server.roll.inQueue id)
    (server.roll.inServer id)).putQueue name list _).putUsers server.roll.users = _
  rw [job, queue]
  rfl

/-- A job that has not completed is listed and counted. -/
theorem roll_intoQueue_active (found : server.queues name = some queue) (list : List Name)
    (active : (server.jobs id).jiState ≠ .complete)
    (inQueue : (server.jobs id).countedInQueue = false)
    (inServer : (server.jobs id).countedGlobally = false)
    (job : (server.jobs id).jiIsArrayTemplate = false) :
    (server.intoQueue id name queue list).roll = (server.roll.relist name list).count id name := by
  have one := countJobsSubmitted_of_job job
  have state := update_eq_self id server.roll.state
  have hdr := update_eq_self id server.roll.hdr
  rw [roll_intoQueue, inQueue, inServer]
  unfold incrementCounted incrementQueuedJobs
  rw [if_neg active, if_neg (by simp [active]), if_neg (by simp [active]), one, ← roll_table found]
  unfold Roll.putJob
  rw [state, hdr]
  rfl

/-- The job points to the queue, and is in the lists of the server. -/
theorem roll_listed (server : ServerState) (id name : Name) (prevJobId : Option Name) :
    ((server.listJob id prevJobId).setJob id ((server.jobs id).setQhdr name)).roll =
      server.roll.point id (some name) := by
  rw [roll_setJob (server.listJob id prevJobId) id ((server.jobs id).setQhdr name) rfl rfl rfl]
  exact server.roll.putJob_point id (some name)

/-- A job that is found in the list by its rank is in it, and otherwise it is not. -/
theorem insertIntoAlljobsByRank_cases (id : Name)
    (sorted : list.Pairwise fun a b => server.roll.rank a ≤ server.roll.rank b) :
    (insertIntoAlljobsByRank server list id = .alreadyInList ∧ id ∈ list) ∨
      id ∉ list ∧
        (insertIntoAlljobsByRank server list id = .jobnotfound ∨
          ∃ list', insertIntoAlljobsByRank server list id = .inserted list' ∧
            list'.Perm (id :: list) ∧
            list'.Pairwise fun a b => server.roll.rank a ≤ server.roll.rank b) := by
  unfold insertIntoAlljobsByRank
  by_cases passed : id ∈ list.rtakeWhile fun other => !server.lowerRank id other
  · rw [if_pos passed]
    exact Or.inl ⟨rfl, (List.rtakeWhile_suffix _ _).subset passed⟩
  · have fresh : id ∉ list := fun mem => passed (mem_rtakeWhile_of_sorted sorted mem)
    rw [if_neg passed]
    refine Or.inr ⟨fresh, ?_⟩
    split
    · exact Or.inr ⟨_, rfl, insertBehind_perm _ _ _, insertBehind_sorted sorted⟩
    · exact Or.inl rfl

/-- No queue but one lists the job, unless it has completed. -/
def ListedAt (server : ServerState) (id name : Name) : Prop :=
  (server.jobs id).jiState ≠ .complete → ∀ other queue, server.queues other = some queue →
    id ∈ queue.quJobs → other = name

theorem ListedAt.eq_of_mem (listed : ListedAt server id name)
    (active : (server.jobs id).jiState ≠ .complete) {other : Name}
    (mem : id ∈ server.roll.list other) : other = name := by
  obtain ⟨queue, found, mem⟩ := mem_roll_list mem
  exact listed active other queue found mem

/-- The job is put into `qu_jobs`; it points to the queue already. -/
theorem right_intoQueue_roll (right : server.roll.Right) (found : server.queues name = some queue)
    (fresh : id ∉ queue.quJobs)
    (unlisted : (server.jobs id).jiState ≠ .complete → ∀ at_, id ∉ server.roll.list at_)
    (hdr : (server.jobs id).jiQhdr = some name) (job : (server.jobs id).jiIsArrayTemplate = false)
    (perm : list.Perm (id :: queue.quJobs))
    (sorted : list.Pairwise fun a b => server.roll.rank a ≤ server.roll.rank b) :
    (server.intoQueue id name queue list).roll.Right := by
  rw [← roll_list found] at fresh perm
  by_cases complete : (server.jobs id).jiState = .complete
  · rw [roll_intoQueue_complete found list complete]
    exact right.enlist fresh perm sorted complete job
  · have idle : ¬ server.roll.Active id := by
      rintro ⟨_, at_, mem⟩
      exact unlisted complete at_ mem
    have inQueue : (server.jobs id).countedInQueue = false :=
      Bool.not_eq_true _ ▸ mt (right.inQueue id).mp idle
    have inServer : (server.jobs id).countedGlobally = false :=
      Bool.not_eq_true _ ▸ mt (right.inServer id).mp idle
    have pointed : server.roll.point id (some name) = server.roll := by
      rw [← hdr]
      exact congrArg (fun hdr => { server.roll with hdr := hdr })
        (update_eq_self id server.roll.hdr)
    rw [roll_intoQueue_active found list complete inQueue inServer job]
    have entered := right.enter fresh perm sorted complete (unlisted complete) job
    rw [pointed] at entered
    exact entered

theorem right_placeJob (right : server.roll.Right) (found : server.queues name = some queue)
    (listedAt : ListedAt server id name) (prevJobId : Option Name) (depend : Pbse) :
    (server.placeJob id name queue prevJobId depend).2.roll.Right := by
  have rolled := roll_listed server id name prevJobId
  have isJob : ((server.listJob id prevJobId).setJob id ((server.jobs id).setQhdr name)).jobs id =
      (server.jobs id).setQhdr name := update_self ..
  have isQueue : ((server.listJob id prevJobId).setJob id
      ((server.jobs id).setQhdr name)).queues name = some queue := found
  unfold placeJob
  generalize (server.listJob id prevJobId).setJob id ((server.jobs id).setQhdr name) = listed at *
  by_cases template : (server.jobs id).jiIsArrayTemplate = true
  · have idle : server.roll.Active id → some name = server.roll.hdr id := by
      rintro ⟨_, at_, mem⟩
      have job : (server.jobs id).jiIsArrayTemplate = false := right.jobs at_ id mem
      rw [template] at job
      cases job
    rw [if_pos template, roll_intoSummary isQueue, rolled]
    exact right.point idle
  · rw [Bool.not_eq_true] at template
    rw [template, if_neg Bool.false_ne_true]
    have sorted : queue.quJobs.Pairwise fun a b => listed.roll.rank a ≤ listed.roll.rank b := by
      rw [rolled, ← roll_list found]
      exact right.sorted name
    rcases insertIntoAlljobsByRank_cases id sorted with ⟨passed, mem⟩ | ⟨fresh, notPassed⟩
    · rw [passed, rolled]
      refine right.point fun active => (right.hdr name id ?_ active.1).symm
      rw [roll_list found]
      exact mem
    · have unlisted : (server.jobs id).jiState ≠ .complete →
          ∀ at_, id ∉ server.roll.list at_ := by
        intro active at_ mem
        obtain rfl := listedAt.eq_of_mem active mem
        rw [roll_list found] at mem
        exact fresh mem
      have pointed : listed.roll.Right := by
        rw [rolled]
        apply right.point
        rintro ⟨active, at_, mem⟩
        exact absurd mem (unlisted active at_)
      rcases notPassed with missing | ⟨list, inserted, perm, sorted⟩
      · rw [missing]
        exact pointed
      · have placed : (listed.intoQueue id name queue list).queues name =
            some (queue.enqueued (server.jobs id) list) := by
          change update _ _ _ _ = _
          rw [update_self, isJob]
          rfl
        rw [inserted]
        rw [roll_intoSummary placed]
        refine right_intoQueue_roll pointed isQueue fresh ?_ ?_ ?_ perm sorted
        · rw [isJob, rolled]
          exact unlisted
        · rw [isJob]
          rfl
        · rw [isJob]
          exact template

/-- The call gets to the lists only if no other queue lists the job. -/
def EntersOnce (server : ServerState) (id quename : Name) (haveReservation beingRecovered : Bool) :
    Prop :=
  ∀ found, server.findQueuebyname quename = some found →
    ¬(found.ghostQueue = true ∧ beingRecovered = false) →
      enqueLimit (found.useReservation haveReservation) (server.jobs id) = .none →
        ListedAt server id (stripServer quename)

theorem right_svrEnquejob (right : server.roll.Right) {haveReservation beingRecovered : Bool}
    (enters : EntersOnce server id (server.jobs id).jiQueue haveReservation beingRecovered)
    (prevJobId : Option Name) (depend : Pbse) :
    (svrEnquejob server id prevJobId haveReservation beingRecovered depend).2.roll.Right := by
  unfold svrEnquejob
  dsimp only
  cases isFound : server.findQueuebyname (server.jobs id).jiQueue with
  | none => exact right
  | some found =>
    dsimp only
    split
    · exact right
    · next open_ =>
      have list : (found.useReservation haveReservation).quJobs = found.quJobs := by
        unfold Queue.useReservation
        split <;> rfl
      have table : (found.useReservation haveReservation).quUih = found.quUih := by
        unfold Queue.useReservation
        split <;> rfl
      have reserved : (server.setQueue (stripServer (server.jobs id).jiQueue)
          (found.useReservation haveReservation)).roll = server.roll :=
        roll_setQueue_of_same isFound list table
      split
      · rw [reserved]
        exact right
      · next limit =>
        rw [ne_eq, not_not] at limit
        refine right_placeJob (reserved ▸ right) (update_self ..) ?_ prevJobId depend
        intro active other queue atOther mem
        have before : id ∈ server.roll.list other := by
          rw [← reserved, roll_list atOther]
          exact mem
        exact (enters found isFound open_ limit).eq_of_mem active before

/-! ## Leaving a queue -/

theorem roll_uncount (server : ServerState) (id name : Name) (queue : Queue) :
    (server.uncount id name queue).roll =
      ((server.roll.putJob id (server.roll.state id) (server.roll.hdr id)
        ((server.jobs id).uncount queue.quType).countedInQueue
        ((server.jobs id).uncount queue.quType).countedGlobally).putQueue name queue.quJobs
        (queue.uncount (server.jobs id)).quUih).putUsers
        (server.uncount id name queue).users := by
  have uncounted : (server.uncount id name queue).roll =
      ((server.setJob id ((server.jobs id).uncount queue.quType)).setQueue name
        (queue.uncount (server.jobs id))).roll.putUsers (server.uncount id name queue).users := rfl
  rw [uncounted, roll_setQueue,
    roll_setJob server id ((server.jobs id).uncount queue.quType) rfl rfl rfl]
  rfl

/-- A mark is not taken away where there is none. -/
theorem unmarked_eq {taken : Prop} [Decidable taken] {mark : Bool}
    (unmarked : taken → mark = false) : (if taken then false else mark) = mark :=
  ite_eq_right_iff.2 fun holds => (unmarked holds).symm

/-- A job without the mark is not taken from the count of its user. -/
theorem decremented_eq {taken : Prop} [Decidable taken] {mark : Bool} {uih : Name → Nat} {job : Job}
    (unmarked : taken → mark = false) :
    (if taken then decrementQueuedJobs uih job mark else uih) = uih := by
  refine ite_eq_right_iff.2 fun holds => ?_
  rw [unmarked holds]
  rfl

variable (found : server.queues name = some queue)
include found

/-- A job that is not counted is not uncounted. -/
theorem roll_uncount_idle (inQueue : (server.jobs id).countedInQueue = false)
    (inServer : (server.jobs id).countedGlobally = false) :
    (server.uncount id name queue).roll = server.roll := by
  have bitQueue : ((server.jobs id).uncount queue.quType).countedInQueue =
      server.roll.inQueue id := unmarked_eq fun _ => inQueue
  have bitServer : ((server.jobs id).uncount queue.quType).countedGlobally =
      server.roll.inServer id := unmarked_eq fun _ => inServer
  have table : (queue.uncount (server.jobs id)).quUih = server.roll.table name := by
    rw [roll_table found]
    exact decremented_eq fun _ => inQueue
  have users : (server.uncount id name queue).users = server.roll.users :=
    decremented_eq fun _ => inServer
  rw [roll_uncount, bitQueue, bitServer, table, users, ← roll_list found, Roll.putJob_self,
    Roll.putQueue_relist, Roll.relist_self]
  rfl

theorem roll_uncount_active (active : (server.jobs id).jiState ≠ .complete)
    (inQueue : (server.jobs id).countedInQueue = true)
    (inServer : (server.jobs id).countedGlobally = true) :
    (server.uncount id name queue).roll = server.roll.uncount id name := by
  rw [roll_uncount, Roll.uncount, ← Roll.putJob_mark, roll_list found, roll_table found]
  unfold Job.uncount Queue.uncount uncount decrementQueuedJobs
  dsimp only
  rw [if_pos (Or.inr active), if_pos active, if_pos (Or.inr active), if_pos active, inQueue,
    inServer]
  rfl

end

section

variable {data : CallData} {id name : Name} {queue : Queue}

theorem roll_correctCt (data : CallData) : data.correctCt.server.roll = data.server.roll := by
  have fields : ∀ {α : Type} (other : α) (field : Queue → α) (change : Queue → Queue),
      (∀ queue, field (change queue) = field queue) →
        (fun name => ((data.server.queues name).map change).elim other field) =
          fun name => (data.server.queues name).elim other field := by
    intro α other field change same
    funext name
    cases data.server.queues name with
    | none => rfl
    | some queue => exact same queue
  unfold CallData.correctCt setServer ServerState.correctCt roll
  rw [fields, fields]
  · intro queue
    rfl
  · intro queue
    rfl

theorem roll_unlistAlljobs (server : ServerState) (id : Name) :
    (server.unlistAlljobs id).roll = server.roll := by
  unfold unlistAlljobs
  split <;> rfl

/-- The roll of the server, and which queues are locked. -/
def CallData.view (data : CallData) : Roll × (Name → Bool) :=
  (data.server.roll, data.locked)

theorem view_dequeAlljobs (data : CallData) (id : Name) (held : Option Name) (badCt : Bool) :
    (data.dequeAlljobs id held badCt).1.view = (data.unlockHeld held).view := by
  have removed : ((data.setServer (data.server.unlistAlljobs id)).unlockHeld held).view =
      (data.unlockHeld held).view := by
    have same := roll_unlistAlljobs data.server id
    cases held <;> exact congrArg (·, _) same
  unfold dequeAlljobs
  dsimp only
  split
  · rw [← removed]
    exact congrArg (·, _) (roll_correctCt _)
  · exact removed

section

variable (found : data.server.queues name = some queue) (held : Bool)
include found

theorem view_dequeSum (badCt : Bool) :
    (data.dequeSum id name held badCt {}).1.view =
      (data.server.roll.point id none, update data.locked name false) := by
  have left : (data.server.leaveQueue id name queue).roll = data.server.roll.point id none := by
    have same : (data.server.setQueue name (queue.unlistSum id)).roll = data.server.roll :=
      roll_setQueue_of_same found rfl rfl
    unfold leaveQueue
    rw [roll_setJob (data.server.setQueue name (queue.unlistSum id)) id
      (data.server.jobs id).leave rfl rfl rfl, same]
    exact data.server.roll.putJob_point id none
  unfold dequeSum dequeRest
  rw [found]
  dsimp only
  rw [if_neg Bool.false_ne_true, if_neg Bool.false_ne_true]
  rw [← left]
  cases held with
  | true =>
    rw [if_pos rfl, view_dequeAlljobs]
    rfl
  | false =>
    rw [if_neg Bool.false_ne_true, view_dequeAlljobs]
    rfl

theorem view_dequeJobs :
    (data.dequeJobs id name held {}).1.view =
      ((data.server.roll.relist name (queue.quJobs.erase id)).point id none,
        update data.locked name false) := by
  have list : ∀ state, (queue.unlistJob id state).quJobs = queue.quJobs.erase id := by
    intro state
    unfold Queue.unlistJob
    split
    · rfl
    · next absent => exact (List.erase_of_not_mem absent).symm
  have table : ∀ state, (queue.unlistJob id state).quUih = data.server.roll.table name := by
    intro state
    rw [roll_table found]
    unfold Queue.unlistJob
    split <;> rfl
  unfold dequeJobs
  rw [found]
  dsimp only
  rw [if_neg Bool.false_ne_true, view_dequeSum (update_self ..)]
  change ((data.server.setQueue name _).roll.point id none, _) = _
  rw [roll_setQueue, list, table, Roll.putQueue_relist]
  rfl

/-- The lock of the queue is released again. -/
theorem view_dequeQueue (free : data.locked name = false) :
    (data.dequeQueue id name held {}).1.view =
      (((data.server.uncount id name queue).roll.relist name (queue.quJobs.erase id)).point
        id none, data.locked) := by
  have released : update (update data.locked name true) name false = data.locked := by
    rw [update_idem, ← free, update_eq_self]
  unfold dequeQueue
  rw [found]
  dsimp only
  rw [if_neg Bool.false_ne_true, view_dequeJobs (update_self ..), ← released]
  rfl

end

theorem right_dequeQueue (right : data.server.roll.Right) (free : data.locked name = false)
    (hdr : (data.server.jobs id).jiQhdr = some name) (held : Bool) :
    (data.dequeQueue id name held {}).1.server.roll.Right ∧
      (data.dequeQueue id name held {}).1.locked = data.locked := by
  cases found : data.server.queues name with
  | none =>
    unfold dequeQueue
    rw [found]
    exact ⟨right, rfl⟩
  | some queue =>
    obtain ⟨roll, locked⟩ := Prod.mk.inj (@view_dequeQueue data id name queue found held free)
    refine ⟨?_, locked⟩
    rw [roll, ← roll_list found]
    by_cases active : data.server.roll.Active id
    · have inQueue := (right.inQueue id).mpr active
      have inServer := (right.inServer id).mpr active
      obtain ⟨isActive, at_, mem⟩ := active
      obtain rfl : at_ = name :=
        Option.some.inj ((right.hdr at_ id mem isActive).symm.trans hdr)
      rw [roll_uncount_active found isActive inQueue inServer]
      exact right.leave mem isActive
    · have inQueue := Bool.eq_false_of_not_eq_true (mt (right.inQueue id).mp active)
      have inServer := Bool.eq_false_of_not_eq_true (mt (right.inServer id).mp active)
      rw [roll_uncount_idle found inQueue inServer]
      by_cases complete : data.server.roll.state id = .complete
      · refine (right.delist complete).point ?_
        rintro ⟨isActive, _⟩
        exact absurd complete isActive
      · have absent : id ∉ data.server.roll.list name := fun mem => active ⟨complete, name, mem⟩
        rw [List.erase_of_not_mem absent, Roll.relist_self]
        exact right.point fun isActive => absurd isActive active

theorem right_deque (right : data.server.roll.Right) (free : ∀ name, data.locked name = false)
    (held : Bool) :
    (data.deque id held {}).1.server.roll.Right ∧
      (data.deque id held {}).1.locked = data.locked := by
  unfold deque
  dsimp only
  split
  · exact ⟨right, rfl⟩
  · split
    · split
      · unfold dequeRest
        rw [if_neg Bool.false_ne_true]
        obtain ⟨roll, locked⟩ := Prod.mk.inj (view_dequeAlljobs data id none false)
        exact ⟨roll ▸ right, locked⟩
      · exact ⟨right, rfl⟩
    · next name hdr =>
      rw [if_neg (by simp [free name])]
      exact right_dequeQueue right (free name) hdr held

end

/-! ## Changing the state -/

section

variable {data : CallData} {id : Name} {newstate : JobState} {newsubstate : Substate}

theorem roll_setJobstateBasic (data : CallData) (id : Name) (newstate : JobState)
    (newsubstate : Substate) :
    (data.setJobstateBasic id newstate newsubstate {}).1.server.roll =
      data.server.roll.putState id newstate := by
  unfold setJobstateBasic
  rw [roll_setJob data.server id
    { data.server.jobs id with
      jiState := newstate
      substateComplete := decide (newsubstate = .complete) } rfl rfl rfl]
  exact data.server.roll.putJob_putState id newstate

section

variable (server : ServerState) (id : Name) (newstate : JobState) (queued : Bool)

/-- The server when the job is no longer counted there. -/
def ServerState.moveJob : ServerState :=
  { server.setJob id ((server.jobs id).moveJob newstate queued) with
    users :=
      if newstate = .complete then
        decrementQueuedJobs server.users (server.jobs id) (server.jobs id).countedGlobally
      else server.users }

theorem roll_moveJob :
    (server.moveJob id newstate queued).roll =
      (server.roll.putJob id (server.roll.state id) (server.roll.hdr id)
        ((server.jobs id).moveJob newstate queued).countedInQueue
        ((server.jobs id).moveJob newstate queued).countedGlobally).putUsers
        (server.moveJob id newstate queued).users := by
  have moved : (server.moveJob id newstate queued).roll =
      (server.setJob id ((server.jobs id).moveJob newstate queued)).roll.putUsers
        (server.moveJob id newstate queued).users := rfl
  rw [moved, roll_setJob server id ((server.jobs id).moveJob newstate queued) rfl rfl rfl]
  rfl

end

section

variable {server : ServerState} {queue : Queue}
  (kept : newstate = .complete →
    (server.jobs id).countedInQueue = false ∧ (server.jobs id).countedGlobally = false)

include kept

/-- A job that does not complete, or is not counted, stays counted or not. -/
theorem roll_moveJob_kept (queued : Bool) :
    (server.moveJob id newstate queued).roll = server.roll := by
  have bitQueue : ((server.jobs id).moveJob newstate queued).countedInQueue =
      server.roll.inQueue id := unmarked_eq fun moves => (kept moves.2.2.2).1
  have bitServer : ((server.jobs id).moveJob newstate queued).countedGlobally =
      server.roll.inServer id := unmarked_eq fun complete => (kept complete).2
  have users : (server.moveJob id newstate queued).users = server.roll.users :=
    decremented_eq fun complete => (kept complete).2
  rw [roll_moveJob, bitQueue, bitServer, users, Roll.putJob_self]
  rfl

theorem quUih_moveJob_kept : (queue.moveJob (server.jobs id) newstate).quUih = queue.quUih :=
  decremented_eq fun moves => (kept moves.2.2).1

end

variable {name : Name} {queue : Queue}

theorem roll_moveInQueue_kept
    (kept : newstate = .complete → (data.server.jobs id).countedInQueue = false ∧
      (data.server.jobs id).countedGlobally = false) (pque : Option Name) :
    (data.moveInQueue id newstate pque).server.roll = data.server.roll := by
  have moved := roll_moveJob_kept kept pque.isSome
  unfold moveInQueue
  dsimp only
  split
  · rfl
  · split
    · exact moved
    · next name =>
      split
      · exact moved
      · next queue found =>
        have same : ((data.server.moveJob id newstate true).setQueue name
            (queue.moveJob (data.server.jobs id) newstate)).roll =
              (data.server.moveJob id newstate true).roll :=
          roll_setQueue_of_same found rfl (quUih_moveJob_kept kept)
        exact same.trans moved

/-- A counted job completes, and not from the state `JOB_STATE_TRANSIT`. -/
theorem roll_moveInQueue_complete (found : data.server.queues name = some queue)
    (active : (data.server.jobs id).jiState ≠ .complete)
    (settled : (data.server.jobs id).jiState ≠ .transit)
    (job : (data.server.jobs id).jiIsArrayTemplate = false)
    (inQueue : (data.server.jobs id).countedInQueue = true)
    (inServer : (data.server.jobs id).countedGlobally = true) :
    (data.moveInQueue id .complete (some name)).server.roll =
      data.server.roll.uncount id name := by
  have moved : data.moveInQueue id .complete (some name) =
      data.setServer ((data.server.moveJob id .complete true).setQueue name
        (queue.moveJob (data.server.jobs id) .complete)) := by
    unfold moveInQueue
    dsimp only
    rw [if_neg (by simp [active, job]), found]
    rfl
  rw [moved]
  change ((data.server.moveJob id .complete true).setQueue name _).roll = _
  rw [roll_setQueue, roll_moveJob, Roll.uncount, ← Roll.putJob_mark, roll_list found,
    roll_table found]
  unfold Job.moveJob Queue.moveJob moveJob decrementQueuedJobs
  rw [inQueue, inServer, if_pos rfl, if_pos rfl, if_pos rfl,
    if_pos ⟨rfl, settled, active, rfl⟩, if_pos ⟨settled, active, rfl⟩]
  rfl

theorem locked_setQueueState (data : CallData) (id : Name) (newstate : JobState)
    (newsubstate : Substate) (pque : Option Name) :
    (data.setQueueState id newstate newsubstate {} pque).1.locked = data.locked := by
  change (data.moveInQueue id newstate pque).locked = data.locked
  unfold moveInQueue
  dsimp only
  split
  · rfl
  · split
    · rfl
    · split <;> rfl

/-- If the job is in a queue, it completes only from a state in which that is counted, and it
does not leave the state `JOB_STATE_COMPLETE`. -/
def CompletesCounted (data : CallData) (id : Name) (newstate : JobState) (newsubstate : Substate) :
    Prop :=
  ∀ name queue, data.server.queues name = some queue → id ∈ queue.quJobs →
    isValidStateTransition (data.server.jobs id).jiState (data.substates id) newstate
        newsubstate = true →
      ¬((data.server.jobs id).jiState = .complete ↔ newstate = .complete) →
        (data.server.jobs id).jiState ≠ .transit ∧ (data.server.jobs id).jiState ≠ .complete ∧
          data.substates id ≠ .transicm

section

variable (right : data.server.roll.Right)
include right

/-- The job completes while it is in a queue. -/
theorem right_finish (found : data.server.queues name = some queue) (mem : id ∈ queue.quJobs)
    (active : (data.server.jobs id).jiState ≠ .complete)
    (settled : (data.server.jobs id).jiState ≠ .transit) :
    (data.setQueueState id .complete newsubstate {} (some name)).1.server.roll.Right := by
  rw [← roll_list found] at mem
  have isActive : data.server.roll.Active id := ⟨active, name, mem⟩
  unfold setQueueState
  rw [roll_setJobstateBasic, roll_moveInQueue_complete found active settled
    (right.jobs name id mem) ((right.inQueue id).mpr isActive) ((right.inServer id).mpr isActive)]
  exact right.finish mem active

theorem right_setQueueState_kept (pque : Option Name)
    (kept : ∀ at_, id ∈ data.server.roll.list at_ → (newstate = .complete ↔
      (data.server.jobs id).jiState = .complete)) :
    (data.setQueueState id newstate newsubstate {} pque).1.server.roll.Right := by
  have idle : newstate = .complete → ¬ data.server.roll.Active id := by
    rintro complete ⟨active, at_, mem⟩
    exact active ((kept at_ mem).mp complete)
  unfold setQueueState
  rw [roll_setJobstateBasic, roll_moveInQueue_kept]
  · exact right.putState kept
  · intro complete
    exact ⟨Bool.eq_false_of_not_eq_true (mt (right.inQueue id).mp (idle complete)),
      Bool.eq_false_of_not_eq_true (mt (right.inServer id).mp (idle complete))⟩

/-- The job changes its state, and the counters of its queue with it. -/
theorem right_setQueueState
    (counted : ∀ name queue, data.server.queues name = some queue → id ∈ queue.quJobs →
      ¬((data.server.jobs id).jiState = .complete ↔ newstate = .complete) →
      (data.server.jobs id).jiState ≠ .transit ∧ (data.server.jobs id).jiState ≠ .complete) :
    (data.setQueueState id newstate newsubstate {}
      (data.server.jobs id).jiQhdr).1.server.roll.Right := by
  by_cases listed : ∃ name queue, data.server.queues name = some queue ∧ id ∈ queue.quJobs ∧
      ¬((data.server.jobs id).jiState = .complete ↔ newstate = .complete)
  · obtain ⟨name, queue, found, mem, completes⟩ := listed
    obtain ⟨settled, active⟩ := counted name queue found mem completes
    obtain rfl : newstate = .complete := by
      by_contra notComplete
      exact completes ⟨fun complete => absurd complete active,
        fun complete => absurd complete notComplete⟩
    have hdr : (data.server.jobs id).jiQhdr = some name := by
      refine right.hdr name id ?_ active
      rw [roll_list found]
      exact mem
    rw [hdr]
    exact right_finish right found mem active settled
  · apply right_setQueueState_kept right
    intro at_ mem
    obtain ⟨queue, found, mem⟩ := mem_roll_list mem
    by_contra completes
    exact listed ⟨at_, queue, found, mem, fun same => completes same.symm⟩

theorem right_setState (free : ∀ name, data.locked name = false)
    (counted : CompletesCounted data id newstate newsubstate) (held : Bool) :
    (data.setState id newstate newsubstate {} held).1.server.roll.Right ∧
      (data.setState id newstate newsubstate {} held).1.locked = data.locked := by
  unfold setState
  dsimp only
  split
  · exact ⟨right, rfl⟩
  · next valid =>
    rw [Bool.not_eq_false] at valid
    split
    · next quiet =>
      refine ⟨?_, rfl⟩
      rw [roll_setJobstateBasic]
      apply right.putState
      intro at_ mem
      obtain ⟨queue, found, mem⟩ := mem_roll_list mem
      by_contra changes
      obtain ⟨_, _, notNew⟩ := counted at_ queue found mem valid fun same => changes same.symm
      rcases quiet with isNew | isSame
      · exact notNew isNew
      · exact changes (isSame ▸ Iff.rfl)
    · obtain ⟨states, eq⟩ := exists_moveInServer data id newstate
      have moved : ((data.moveInServer id newstate).setQueueState id newstate newsubstate {}
          (data.server.jobs id).jiQhdr).1.server.roll.Right := by
        rw [eq]
        refine right_setQueueState right ?_
        intro name queue found mem completes
        obtain ⟨settled, active, _⟩ := counted name queue found mem valid completes
        exact ⟨settled, active⟩
      have locked := locked_setQueueState (data.moveInServer id newstate) id newstate newsubstate
        (data.server.jobs id).jiQhdr
      rw [eq] at moved locked ⊢
      split
      · next hdr =>
        rw [hdr] at moved locked
        exact ⟨moved, locked⟩
      · next name hdr =>
        rw [hdr] at moved locked
        rw [if_neg (by simp [free name])]
        exact ⟨moved, locked⟩

end

end

end Torque.Server
