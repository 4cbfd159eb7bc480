import Torque.Server.QueueInvariant

/-!
# Moving a job to another queue of the server

`local_move` asks the destination whether it admits the job, takes the job out
of its queue and puts it into the destination.  When the second step fails the
first one is not undone, so a move is atomic only if everything that
`svr_enquejob` checks has been checked before.

The main result says exactly when that is the case.
-/

namespace Torque.Server

open Function

variable (queue : Queue) {server : ServerState} {queue' : Queue} (name id : Name) (job : Job)

/-- Who asks for a move: the router, a user, or a privileged request. -/
inductive Mover where
  | router
  | user
  | manager
  deriving DecidableEq, Repr

/-- The type of the move. -/
def Mover.mtype : Mover → MoveType
  | .router => .route
  | .user => .move
  | .manager => .mgrMv

/-- What `local_move` returns: 0, -1, 1, or another code. -/
inductive MoveRc where
  | success
  | permFailure
  | retry
  | error (code : Pbse)
  deriving DecidableEq, Repr

/-- `should_retry_route`; 98 and 99 are `EADDRINUSE` and `EADDRNOTAVAIL`. -/
def shouldRetryRoute : Pbse → MoveRc
  | .none => .retry
  | .system => .retry
  | .internal => .retry
  | .expired => .retry
  | .maxqued => .retry
  | .maxuserqued => .retry
  | .qunoenb => .retry
  | .noconnects => .retry
  | .other code => if code = 98 ∨ code = 99 then .retry else .permFailure
  | _ => .permFailure

/-- What `have_reservation` returns: the queue has a limit. -/
def Queue.haveReservation (queue : Queue) : Bool :=
  queue.maxJobs.isSome || queue.maxUserJobs.isSome

/-- What `have_reservation` does: it takes a reservation in a queue that has a
limit. -/
def Queue.reserve (queue : Queue) : Queue :=
  if queue.haveReservation then { queue with quReservedJobs := queue.quReservedJobs + 1 }
  else queue

section

variable (server : ServerState) (id : Name)

/-- The destination becomes the job's queue, and a job without a queue rank
gets the next one. -/
def ServerState.retarget : ServerState :=
  let job := server.jobs id
  { server with
    jobs := update server.jobs id
      { job with
        jiQueue := job.jiDestin.take pbsMaxqueuename
        qrank := if job.qrankSet then job.qrank else server.queueRank + 1 }
    queueRank := if job.qrankSet then server.queueRank else server.queueRank + 1 }

/-- `ji_lastdest` is reset. -/
def ServerState.resetLastdest : ServerState :=
  server.setJob id { server.jobs id with jiLastdest := 0 }

/-- `local_move` of a job to its `ji_destin`; `queueNames` are all queues. -/
def localMove (queueNames : List Name) (mover : Mover) (checks : Checks) (depend : Pbse) :
    MoveRc × ServerState :=
  let job := server.jobs id
  if job.jiQueue = job.jiDestin then
    (.success, server)
  else
    match server.findQueuebyname job.jiDestin with
    | none => (.permFailure, server)
    | some dest =>
      if server.svrFindJob id = false then
        (.error .jobRecycled, server)
      else
        let checked := svrChkque dest job mover.mtype checks
        if checked ≠ .none then
          (shouldRetryRoute checked, server)
        else
          let dequeued :=
            svrDequejob (server.setQueue (stripServer job.jiDestin) dest.reserve) id queueNames
          if dequeued.1 ≠ .none then
            (.error dequeued.1, dequeued.2)
          else
            let enqued :=
              svrEnquejob (dequeued.2.retarget id) id none dest.haveReservation false depend
            if enqued.1 = .none then (.success, enqued.2.resetLastdest id)
            else (.permFailure, enqued.2)

/-! ## The ways a move can end -/

/-- The server when the job has left its queue and names the destination. -/
def ServerState.between (name : Name) (dest queue : Queue) : ServerState :=
  ((server.setQueue (stripServer (server.jobs id).jiDestin) dest.reserve).dequeued id name
    queue).retarget id

end

/-- The outcomes of `local_move`, each with the condition that leads to it. -/
inductive LocalMoved (server : ServerState) (id : Name) (mover : Mover) (checks : Checks)
    (depend : Pbse) : MoveRc × ServerState → Prop where
  | same (already : (server.jobs id).jiQueue = (server.jobs id).jiDestin) :
      LocalMoved server id mover checks depend (.success, server)
  | refused {rc : MoveRc} (away : (server.jobs id).jiQueue ≠ (server.jobs id).jiDestin)
      (reason : server.svrFindJob id = false ∨
        ∀ dest, server.findQueuebyname (server.jobs id).jiDestin = some dest →
          svrChkque dest (server.jobs id) mover.mtype checks ≠ .none)
      (failed : rc ≠ .success) :
      LocalMoved server id mover checks depend (rc, server)
  | stuck {dest : Queue} {code : Pbse}
      (away : (server.jobs id).jiQueue ≠ (server.jobs id).jiDestin)
      (found : server.findQueuebyname (server.jobs id).jiDestin = some dest)
      (known : server.svrFindJob id = true)
      (admitted : svrChkque dest (server.jobs id) mover.mtype checks = .none)
      (fixed : ¬ (server.jobs id).Removable) :
      LocalMoved server id mover checks depend
        (.error code, server.setQueue (stripServer (server.jobs id).jiDestin) dest.reserve)
  | enqued {dest queue : Queue} {name : Name} {code : Pbse} {moved : ServerState}
      (away : (server.jobs id).jiQueue ≠ (server.jobs id).jiDestin)
      (found : server.findQueuebyname (server.jobs id).jiDestin = some dest)
      (known : server.svrFindJob id = true)
      (admitted : svrChkque dest (server.jobs id) mover.mtype checks = .none)
      (removable : (server.jobs id).Removable)
      (qhdr : (server.jobs id).jiQhdr = some name)
      (at_name : (server.setQueue (stripServer (server.jobs id).jiDestin)
        dest.reserve).queues name = some queue)
      (enqued : Enqued (server.between id name dest queue) id none dest.haveReservation false
        depend (code, moved)) :
      LocalMoved server id mover checks depend
        (if code = .none then (.success, moved.resetLastdest id) else (.permFailure, moved))

theorem reserve_quJobs : queue.reserve.quJobs = queue.quJobs := by
  unfold Queue.reserve
  split <;> rfl

theorem reserve_quJobsArraySum : queue.reserve.quJobsArraySum = queue.quJobsArraySum := by
  unfold Queue.reserve
  split <;> rfl

theorem Lists.reserve (lists : Lists server) {name : Name} {queue : Queue}
    (at_name : server.queues name = some queue) : Lists (server.setQueue name queue.reserve) :=
  lists.setQueue at_name (reserve_quJobs queue) (reserve_quJobsArraySum queue)

theorem ServerState.Counts.reserve {id : Name} (counts : server.Counts id) {name : Name}
    {queue : Queue} (at_name : server.queues name = some queue) :
    (server.setQueue name queue.reserve).Counts id := by
  intro home found qhdr at_home
  have same : ∀ queue : Queue, (server.setQueue name queue.reserve).badCt id queue.reserve =
      server.badCt id queue := by
    intro queue
    unfold Queue.reserve
    split <;> rfl
  rcases update_some_cases at_home with ⟨rfl, rfl⟩ | ⟨-, at_home⟩
  · exact (same queue).trans (counts home queue qhdr at_name)
  · exact counts home found qhdr at_home

theorem shouldRetryRoute_ne_success (code : Pbse) : shouldRetryRoute code ≠ .success := by
  cases code with
  | other code => by_cases retry : code = 98 ∨ code = 99 <;> simp [shouldRetryRoute, retry]
  | _ => simp [shouldRetryRoute]

theorem localMove_cases (lists : Lists server) (id : Name) (counts : server.Counts id)
    (queueNames : List Name) (mover : Mover) (checks : Checks) (depend : Pbse) :
    LocalMoved server id mover checks depend
      (localMove server id queueNames mover checks depend) := by
  unfold localMove
  by_cases same : (server.jobs id).jiQueue = (server.jobs id).jiDestin
  · rw [if_pos same]
    exact .same same
  · rw [if_neg same]
    cases found : server.findQueuebyname (server.jobs id).jiDestin with
    | none => exact .refused same (.inr (by simp [found])) (by simp)
    | some dest =>
      dsimp only
      by_cases lost : server.svrFindJob id = false
      · rw [if_pos lost]
        exact .refused same (.inl lost) (by simp)
      · rw [if_neg lost]
        have known : server.svrFindJob id = true := Bool.not_eq_false _ ▸ lost
        by_cases admitted : svrChkque dest (server.jobs id) mover.mtype checks = .none
        · rw [if_neg (not_not.mpr admitted)]
          have reserved := lists.reserve found
          have counted := counts.reserve found
          generalize reservedEq : server.setQueue (stripServer (server.jobs id).jiDestin)
            dest.reserve = state at reserved counted
          rcases svrDequejob_cases reserved id queueNames counted with
            ⟨removable, name, queue, qhdr, at_name, dequeued⟩ | ⟨fixed, code, error, failed⟩
          · have free : ((state.dequeued id name queue).retarget id).Free id :=
              reserved.free_dequeued qhdr at_name
            have enqued := svrEnquejob_cases free none dest.haveReservation false depend
            rw [dequeued, if_neg (not_not.mpr rfl)]
            subst reservedEq
            exact .enqued same found known admitted removable qhdr at_name enqued
          · rw [failed, if_pos error]
            subst reservedEq
            exact .stuck same found known admitted fixed
        · rw [if_pos admitted]
          refine .refused same (.inr ?_) (shouldRetryRoute_ne_success _)
          intro other otherEq
          rw [found] at otherEq
          cases otherEq
          exact admitted

/-! ## Where a job is -/

/-- The list of the server that a job belongs to: array templates are listed
in `array_summary` instead of `alljobs`. -/
def ServerState.listOf (server : ServerState) (job : Job) : List Name :=
  if job.jiIsArrayTemplate then server.arraySummary else server.alljobs

/-- The list of a queue that a job belongs to. -/
def Queue.listOf (queue : Queue) (job : Job) : List Name :=
  if job.jiIsArrayTemplate then queue.quJobsArraySum else queue.quJobs

/-- The job is known to the server and listed by one queue only. -/
structure Settled (server : ServerState) (id name : Name) : Prop where
  known : id ∈ server.listOf (server.jobs id)
  listed : ∃ queue, server.queues name = some queue ∧ id ∈ queue.listOf (server.jobs id)
  only : ∀ other queue, server.queues other = some queue →
    id ∈ queue.listOf (server.jobs id) → other = name

section

variable {id : Name} (free : server.Free id) {name : Name} {queue : Queue}
  (at_name : server.queues name = some queue)
include free at_name

theorem ServerState.Free.not_mem_listOf (job : Job) : id ∉ queue.listOf job := by
  obtain ⟨jobs, sum⟩ := free name queue at_name
  unfold Queue.listOf
  split
  · exact sum
  · exact jobs

theorem ServerState.Free.setQueue (sameJobs : queue'.quJobs = queue.quJobs)
    (sameSum : queue'.quJobsArraySum = queue.quJobsArraySum) :
    (server.setQueue name queue').Free id := by
  refine forall_update_some ?_ free
  rw [sameJobs, sameSum]
  exact free name queue at_name

end

theorem Settled.svrFindJob {id name : Name} (settled : Settled server id name) :
    server.svrFindJob id = true := by
  have known := settled.known
  unfold ServerState.listOf at known
  split at known <;> simp [ServerState.svrFindJob, known]

theorem Settled.setQueue {id home name : Name} (settled : Settled server id home) {queue : Queue}
    (at_name : server.queues name = some queue) (sameJobs : queue'.quJobs = queue.quJobs)
    (sameSum : queue'.quJobsArraySum = queue.quJobsArraySum) :
    Settled (server.setQueue name queue') id home := by
  have sameList : queue'.listOf (server.jobs id) = queue.listOf (server.jobs id) := by
    unfold Queue.listOf
    rw [sameJobs, sameSum]
  refine ⟨settled.known, ?_, ?_⟩
  · obtain ⟨found, foundEq, mem⟩ := settled.listed
    by_cases here : home = name
    · subst here
      rw [at_name] at foundEq
      cases foundEq
      exact ⟨queue', by simp, by simpa [sameList] using mem⟩
    · exact ⟨found, by simpa [here] using foundEq, mem⟩
  · refine forall_update_some ?_ settled.only
    intro mem
    exact settled.only name queue at_name (sameList ▸ mem)

theorem Settled.resetLastdest {id name : Name} (settled : Settled server id name) :
    Settled (server.resetLastdest id) id name := by
  have template : ((server.resetLastdest id).jobs id).jiIsArrayTemplate =
      (server.jobs id).jiIsArrayTemplate := by
    simp [ServerState.resetLastdest, Job.jiIsArrayTemplate]
  constructor
  · have known := settled.known
    unfold ServerState.listOf at known ⊢
    rw [template]
    exact known
  · obtain ⟨queue, at_name, mem⟩ := settled.listed
    exact ⟨queue, at_name, by simpa [Queue.listOf, template] using mem⟩
  · intro other found foundEq mem
    exact settled.only other found foundEq (by simpa [Queue.listOf, template] using mem)

theorem settled_of_placed {server' : ServerState} {id name : Name} {queue : Queue}
    (free : server.Free id) (placed : Placed server server' id name queue none) :
    Settled server' id name := by
  obtain ⟨quJobs, sum, jobsPerm, sumPerm, queues⟩ := placed.queues
  have job : server'.jobs id = (server.jobs id).placed name := by simp [placed.jobs]
  have template : (server'.jobs id).jiIsArrayTemplate = (server.jobs id).jiIsArrayTemplate := by
    rw [job]
    unfold Job.placed
    split <;> rfl
  have only : ∀ other found, server'.queues other = some found →
      id ∈ found.listOf (server'.jobs id) → other = name := by
    intro other found foundEq mem
    by_contra away
    rw [queues, update_of_ne away] at foundEq
    exact free.not_mem_listOf foundEq _ mem
  cases kind : (server.jobs id).jiIsArrayTemplate with
  | true =>
    have belongs : (server.jobs id).inSummary = true := by simp [Job.inSummary, kind]
    rw [if_pos belongs] at sumPerm
    refine ⟨?_, ?_, only⟩
    · simpa [ServerState.listOf, template, kind] using placed.arraySummary belongs
    · refine ⟨queue.placed (server.jobs id) quJobs sum, by simp [queues], ?_⟩
      simp [Queue.listOf, template, kind, Queue.placed, sumPerm.mem_iff]
  | false =>
    refine ⟨?_, ?_, only⟩
    · simpa [ServerState.listOf, template, kind, placed.alljobs] using mem_listJob_alljobs kind
    · refine ⟨queue.placed (server.jobs id) quJobs sum, by simp [queues], ?_⟩
      simp [Queue.listOf, template, kind, Queue.placed, Queue.enqueued, jobsPerm.mem_iff]

/-! ## The two checks of the limits -/

/-- The queue as it is without the job, if the job points to it. -/
def Queue.without (queue : Queue) (name id : Name) (job : Job) : Queue :=
  if job.jiQhdr = some name then queue.dequeued id job else queue

theorem useReservation_reserve_without :
    (queue.reserve.without name id job).useReservation queue.haveReservation =
      queue.without name id job := by
  unfold Queue.without Queue.reserve
  cases queue.haveReservation with
  | false => rfl
  | true =>
    split
    · simp [Queue.useReservation, Queue.dequeued]
    · simp [Queue.useReservation]

theorem countQueuedJobs_without_le :
    (queue.without name id job).countQueuedJobs ≤ queue.countQueuedJobs := by
  unfold Queue.without
  split
  · rw [dequeued_countQueuedJobs]
    split <;> omega
  · exact Int.le_refl _

theorem countQueuedJobsOf_without_le :
    (queue.without name id job).countQueuedJobsOf job.user ≤
      queue.countQueuedJobsOf job.user := by
  unfold Queue.without
  by_cases here : job.jiQhdr = some name
  · rw [if_pos here]
    by_cases counted : queue.quType = .routePush ∨ job.jiState ≠ .complete
    · cases bit : job.countedInQueue <;>
        simp [Queue.countQueuedJobsOf, Queue.dequeued, counted, decrementQueuedJobs, bit]
    · simp [Queue.countQueuedJobsOf, Queue.dequeued, counted]
  · simp [here]

@[simp]
theorem without_maxJobs : (queue.without name id job).maxJobs = queue.maxJobs := by
  unfold Queue.without
  split <;> rfl

@[simp]
theorem without_maxUserJobs : (queue.without name id job).maxUserJobs = queue.maxUserJobs := by
  unfold Queue.without
  split <;> rfl

@[simp]
theorem without_quReservedJobs :
    (queue.without name id job).quReservedJobs = queue.quReservedJobs := by
  unfold Queue.without
  split <;> rfl

theorem enqueArrayJobs_le : enqueArrayJobs job ≤ chkqueArrayJobs job := by
  unfold enqueArrayJobs chkqueArrayJobs
  cases job.jobArrayRequest with
  | none => simp
  | some request =>
    split <;> omega

theorem chkqueArrayJobs_nonneg : 0 ≤ chkqueArrayJobs job := by
  unfold chkqueArrayJobs
  cases job.jobArrayRequest with
  | none => simp
  | some request =>
    split <;> omega

theorem firstError_eq_none_iff {codes : List Pbse} :
    firstError codes = .none ↔ ∀ code ∈ codes, code = .none := by
  induction codes with
  | nil => simp [firstError]
  | cons code rest ih =>
    cases code with
    | none => simp [firstError, ih]
    | _ => simp [firstError]

variable {checks : Checks} {dest : Queue} {mover : Mover}

/-- The first check of the limits, which a move by a manager skips. -/
theorem checkQueueJobLimit_of_admitted {job : Job}
    (admitted : svrChkque dest job mover.mtype checks = .none) (enforced : mover ≠ .manager) :
    checkQueueJobLimit dest job checks = .none := by
  have bypass : mover.mtype ≠ .mgrMv ∧ mover.mtype ≠ .order := by
    cases mover <;> simp [Mover.mtype] at enforced ⊢
  unfold svrChkque at admitted
  rw [if_pos bypass] at admitted
  have group := firstError_eq_none_iff.mp admitted
    (firstError [checkQueueEnabled dest, checkQueueJobLimit dest job checks,
      checkLocalRoute dest mover.mtype]) (by simp)
  exact firstError_eq_none_iff.mp group _ (by simp)

theorem any_le_iff {limit? : Option Int} {count : Int} :
    (limit?.any fun limit => decide (limit ≤ count)) = true ↔
      ¬ ∀ limit ∈ limit?, count < limit := by
  cases limit? <;> simp

theorem enqueLimit_eq_none_iff {queue : Queue} {job : Job} :
    enqueLimit queue job = .none ↔
      (∀ limit ∈ queue.maxJobs,
        queue.countQueuedJobs + enqueArrayJobs job + queue.quReservedJobs < limit) ∧
      ∀ limit ∈ queue.maxUserJobs,
        queue.countQueuedJobsOf job.user + queue.quReservedJobs < limit := by
  unfold enqueLimit
  split
  · rename_i full
    have tight := any_le_iff.mp full
    exact ⟨fun none => by contradiction, fun room => absurd room.1 tight⟩
  · rename_i roomy
    have loose := not_not.mp (mt any_le_iff.mpr roomy)
    split
    · rename_i fullUser
      have tight := any_le_iff.mp fullUser
      exact ⟨fun none => by contradiction, fun room => absurd room.2 tight⟩
    · rename_i roomyUser
      have looseUser := not_not.mp (mt any_le_iff.mpr roomyUser)
      exact ⟨fun _ => ⟨loose, looseUser⟩, fun _ => rfl⟩

theorem lt_of_checkQueueJobLimit {queue : Queue} {job : Job}
    (checked : checkQueueJobLimit queue job checks = .none) :
    (∀ limit ∈ queue.maxJobs,
        queue.countQueuedJobs + chkqueArrayJobs job + queue.quReservedJobs < limit) ∧
      ∀ limit ∈ queue.maxUserJobs, 0 ≤ limit →
        queue.countQueuedJobsOf job.user + chkqueArrayJobs job + queue.quReservedJobs < limit := by
  unfold checkQueueJobLimit at checked
  split at checked
  · contradiction
  · rename_i roomy
    split at checked
    · contradiction
    · rename_i roomyUser
      refine ⟨not_not.mp (mt any_le_iff.mpr roomy), ?_⟩
      intro limit set nonneg
      rw [Option.mem_def] at set
      simp only [set, Option.any_some, decide_eq_true_eq] at roomyUser
      omega

/-! ## The job between the two queues -/

section

variable {server : ServerState} {id name : Name} {dest queue : Queue} (other : Queue)

theorem between_jiQueue :
    ((server.between id name dest queue).jobs id).jiQueue =
      (server.jobs id).jiDestin.take pbsMaxqueuename := by
  simp [ServerState.between, ServerState.retarget, ServerState.dequeued, Job.dequeued]

theorem between_enqueLimit :
    enqueLimit other ((server.between id name dest queue).jobs id) =
      enqueLimit other (server.jobs id) := by
  simp [ServerState.between, ServerState.retarget, ServerState.dequeued, Job.dequeued,
    enqueLimit, enqueArrayJobs, Job.user]
  rfl

theorem between_enqueDepend (depend : Pbse) :
    enqueDepend other ((server.between id name dest queue).jobs id) depend =
      enqueDepend other (server.jobs id) depend := by
  simp [ServerState.between, ServerState.retarget, ServerState.dequeued, Job.dequeued, enqueDepend]

/-- The destination is found again under the name written to the job. -/
theorem between_stripServer (name : Name) (queue : Queue) (lists : Lists server)
    (found : server.findQueuebyname (server.jobs id).jiDestin = some dest) :
    stripServer ((server.between id name dest queue).jobs id).jiQueue =
      stripServer (server.jobs id).jiDestin := by
  rw [between_jiQueue]
  exact stripServer_take (lists.names _ dest found)

theorem between_queues (qhdr : (server.jobs id).jiQhdr = some name)
    (at_name : (server.setQueue (stripServer (server.jobs id).jiDestin)
      dest.reserve).queues name = some queue) :
    (server.between id name dest queue).queues (stripServer (server.jobs id).jiDestin) =
      some (dest.reserve.without (stripServer (server.jobs id).jiDestin) id
        (server.jobs id)) := by
  simp only [ServerState.between, ServerState.retarget, ServerState.dequeued, Queue.without,
    qhdr, setQueue_queues, setQueue_jobs] at at_name ⊢
  by_cases back : name = stripServer (server.jobs id).jiDestin
  · subst back
    rw [update_self] at at_name ⊢
    rw [if_pos rfl, Option.some.inj at_name]
  · rw [update_of_ne (Ne.symm back), update_self, if_neg (fun same => back (Option.some.inj same))]

end

variable {dest : Queue} (maxJobs : Option Int) (queue : Queue) (name id : Name) (job : Job)
  {moved server : ServerState}

/-! ## All or nothing -/

/-- A move that returns 0 leaves the job in the destination, and any other one
leaves it in the queue `name` it came from. -/
def AllOrNothing (server : ServerState) (id name : Name) (result : MoveRc × ServerState) : Prop :=
  (result.1 = .success →
      Settled result.2 id (stripServer (server.jobs id).jiDestin)) ∧
    (result.1 ≠ .success →
      Settled result.2 id name ∧ (result.2.jobs id).jiQueue = (server.jobs id).jiQueue)

/-- The second check of the limits cannot fail: the first one has been made
and looked at the limit for users, or the destination has room for the job
anyway. -/
def Fits (mover : Mover) (dest : Queue) (name id : Name) (job : Job) : Prop :=
  (mover ≠ .manager ∧ ∀ limit ∈ dest.maxUserJobs, 0 ≤ limit) ∨
    enqueLimit (dest.without name id job) job = .none
deriving Decidable

/-- Nothing that `svr_enquejob` can trip over is left once the destination has
admitted the job: it is no ghost queue, its limits leave room, and the
dependencies of the job can be registered (unless the move led back to the
queue it started from). -/
def MoveSafe (server : ServerState) (id name : Name) (mover : Mover) (checks : Checks)
    (depend : Pbse) : Prop :=
  (server.jobs id).jiQueue = (server.jobs id).jiDestin ∨
    ∀ dest ∈ server.findQueuebyname (server.jobs id).jiDestin,
      svrChkque dest (server.jobs id) mover.mtype checks = .none → (server.jobs id).Removable →
        dest.ghostQueue = false ∧
        Fits mover dest (stripServer (server.jobs id).jiDestin) id (server.jobs id) ∧
        (enqueDepend dest (server.jobs id) depend = .none ∨
          name = stripServer (server.jobs id).jiDestin ∧
            (server.jobs id).jiDestin.take pbsMaxqueuename = (server.jobs id).jiQueue)
deriving Decidable

/-- A queue that admits the job passes the second check too, unless its limit
for users is negative: then the first check ignores it. -/
theorem fits_iff {job : Job} (admitted : svrChkque dest job mover.mtype checks = .none)
    (name id : Name) :
    Fits mover dest name id job ↔ enqueLimit (dest.without name id job) job = .none := by
  constructor
  · rintro (⟨enforced, nonneg⟩ | room)
    · obtain ⟨roomy, roomyUser⟩ :=
        lt_of_checkQueueJobLimit (checkQueueJobLimit_of_admitted admitted enforced)
      rw [enqueLimit_eq_none_iff, without_maxJobs, without_maxUserJobs, without_quReservedJobs]
      constructor
      · intro limit set
        have total := countQueuedJobs_without_le dest name id job
        have fewer := enqueArrayJobs_le job
        have less := roomy limit set
        omega
      · intro limit set
        have user := countQueuedJobsOf_without_le dest name id job
        have more := chkqueArrayJobs_nonneg job
        have less := roomyUser limit set (nonneg limit set)
        omega
    · exact room
  · exact .inr

@[simp]
theorem without_ghostQueue : (queue.without name id job).ghostQueue = queue.ghostQueue := by
  unfold Queue.without
  split <;> rfl

theorem reserve_ghostQueue : queue.reserve.ghostQueue = queue.ghostQueue := by
  unfold Queue.reserve
  split <;> rfl

theorem enqueDepend_reserve_without (job' : Job) (depend : Pbse) :
    enqueDepend (queue.reserve.without name id job) job' depend =
      enqueDepend queue job' depend := by
  unfold Queue.without Queue.reserve
  split <;> split <;> rfl

theorem placed_jiQueue (name : Name) : (job.placed name).jiQueue = job.jiQueue := by
  unfold Job.placed
  split <;> rfl

/-- A move that fails with the job in no list is not all or nothing. -/
theorem not_allOrNothing_of_free {id name : Name} (free : moved.Free id) :
    ¬ AllOrNothing server id name (.permFailure, moved) := by
  intro atomic
  obtain ⟨queue, at_name, mem⟩ := (atomic.2 (by simp)).1.listed
  exact free.not_mem_listOf at_name _ mem

/-- What the second half of a move comes to. -/
theorem allOrNothing_enqued_iff {id name : Name} {queue : Queue} {code depend : Pbse}
    (lists : Lists server) (found : server.findQueuebyname (server.jobs id).jiDestin = some dest)
    (qhdr : (server.jobs id).jiQhdr = some name)
    (at_name : (server.setQueue (stripServer (server.jobs id).jiDestin)
      dest.reserve).queues name = some queue)
    (enqued : Enqued (server.between id name dest queue) id none dest.haveReservation false
      depend (code, moved)) :
    AllOrNothing server id name
        (if code = .none then (.success, moved.resetLastdest id) else (.permFailure, moved)) ↔
      dest.ghostQueue = false ∧
      enqueLimit (dest.without (stripServer (server.jobs id).jiDestin) id (server.jobs id))
        (server.jobs id) = .none ∧
      (enqueDepend dest (server.jobs id) depend = .none ∨
        name = stripServer (server.jobs id).jiDestin ∧
          (server.jobs id).jiDestin.take pbsMaxqueuename = (server.jobs id).jiQueue) := by
  have destName := between_stripServer name queue lists found
  have destQueue := between_queues qhdr at_name
  have free : (server.between id name dest queue).Free id :=
    (lists.reserve found).free_dequeued qhdr at_name
  cases enqued with
  | unkque missing =>
    rw [ServerState.findQueuebyname, destName, destQueue] at missing
    contradiction
  | ghostqueue found' ghost =>
    rw [destName, destQueue] at found'
    cases found'
    rw [without_ghostQueue, reserve_ghostQueue] at ghost
    refine iff_of_false (not_allOrNothing_of_free free) ?_
    intro safe
    rw [ghost.1] at safe
    exact absurd safe.1 (by simp)
  | limit found' real full error =>
    rw [destName, destQueue] at found'
    cases found'
    rw [between_enqueLimit, useReservation_reserve_without] at full
    rw [if_neg error]
    refine iff_of_false ?_ ?_
    · apply not_allOrNothing_of_free
      rw [destName]
      exact free.setQueue destQueue (useReservation_quJobs _ _)
        (useReservation_quJobsArraySum _ _)
    · intro safe
      exact error (full ▸ safe.2.1)
  | placed found' real room placed =>
    rw [destName, destQueue] at found'
    cases found'
    rw [between_enqueLimit, useReservation_reserve_without] at room
    rw [between_enqueDepend, enqueDepend_reserve_without]
    rw [destName] at placed
    have settled := settled_of_placed (free.setQueue destQueue (useReservation_quJobs _ _)
      (useReservation_quJobsArraySum _ _)) placed
    have ghost : dest.ghostQueue = false := by
      simpa [reserve_ghostQueue] using real
    by_cases registered : enqueDepend dest (server.jobs id) depend = .none
    · rw [if_pos registered]
      refine iff_of_true ⟨fun _ => ?_, fun failed => absurd rfl failed⟩
        ⟨ghost, room, .inl registered⟩
      exact settled.resetLastdest
    · rw [if_neg registered]
      have jiQueue : (moved.jobs id).jiQueue =
          (server.jobs id).jiDestin.take pbsMaxqueuename := by
        rw [placed.jobs, update_self, placed_jiQueue]
        exact between_jiQueue
      constructor
      · intro atomic
        obtain ⟨home, kept⟩ := atomic.2 (by simp)
        obtain ⟨queue', at_name', mem⟩ := home.listed
        exact ⟨ghost, room, .inr ⟨settled.only _ _ at_name' mem, jiQueue ▸ kept⟩⟩
      · rintro ⟨-, -, none | ⟨back, kept⟩⟩
        · contradiction
        · refine ⟨fun success => by contradiction, fun _ => ⟨?_, jiQueue.trans kept⟩⟩
          rw [back]
          exact settled
  | unlisted found' follows unlisted => contradiction

/-- **A local move** of a job that is counted **is all or nothing** exactly when
nothing is left for `svr_enquejob` to trip over. -/
theorem localMove_allOrNothing_iff (server : ServerState) (id name : Name) (queueNames : List Name)
    (mover : Mover) (checks : Checks) (depend : Pbse) (listed : Listed server)
    (settled : Settled server id name) (qhdr : (server.jobs id).jiQhdr = some name)
    (counts : server.Counts id) :
    AllOrNothing server id name (localMove server id queueNames mover checks depend) ↔
      MoveSafe server id name mover checks depend := by
  have strip : stripServer (server.jobs id).jiQueue = name := listed.named id name qhdr
  have ended := localMove_cases listed.toLists id counts queueNames mover checks depend
  generalize localMove server id queueNames mover checks depend = result at ended
  cases ended with
  | same already =>
    have safe : MoveSafe server id name mover checks depend := .inl already
    refine iff_of_true ⟨fun _ => ?_, fun failed => absurd rfl failed⟩ safe
    rw [← already, strip]
    exact settled
  | refused away reason failed =>
    refine iff_of_true ⟨fun success => absurd success failed, fun _ => ⟨settled, rfl⟩⟩ (.inr ?_)
    intro dest found admitted
    rcases reason with lost | refused
    · exact absurd lost (by simp [settled.svrFindJob])
    · exact absurd admitted (refused dest found)
  | stuck away found known admitted fixed =>
    refine iff_of_true ⟨fun success => by contradiction, fun _ => ⟨?_, rfl⟩⟩ (.inr ?_)
    · exact settled.setQueue found (reserve_quJobs _) (reserve_quJobsArraySum _)
    · intro _ _ _ removable
      exact absurd removable fixed
  | enqued away found known admitted removable qhdr' at_name enqued =>
    rw [qhdr] at qhdr'
    cases qhdr'
    rw [allOrNothing_enqued_iff listed.toLists found qhdr at_name enqued, ← fits_iff admitted]
    constructor
    · intro safe
      refine .inr ?_
      intro other otherEq _ _
      rw [found] at otherEq
      cases otherEq
      exact safe
    · rintro (already | safe)
      · exact absurd already away
      · exact safe _ found admitted removable

/-! ### Two moves -/

/-- A job owned by `u@h` that waits in the queue `a` to be moved to `b`. -/
def waitingJob : Job where
  jiState := .queued
  substateComplete := false
  jobArrayRequest := none
  jiArraystructid := []
  jobOwner := "u@h".toList
  jiQueue := ['a']
  jiDestin := ['b']
  jiQhdr := some ['a']
  qrank := 1
  qrankSet := true
  dependSet := false
  countedInQueue := true
  countedGlobally := true
  jiLastdest := 0

/-- An execution queue with the given limit and jobs of one user. -/
def execQueue (maxJobs : Option Int) (jobs : List Name) (user : Name) : Queue where
  quType := .execution
  enabled := true
  fromRouteOnly := false
  ghostQueue := false
  maxJobs := maxJobs
  maxUserJobs := none
  quReservedJobs := 0
  quNumjobs := jobs.length
  quNjstate := fun state => if state = .queued then jobs.length else 0
  quUih := fun other => if other = user then jobs.length else 0
  quJobs := jobs
  quJobsArraySum := jobs

/-- The job `1` in the queue `a`, and an empty queue `b` with the given limit. -/
def twoQueues (maxJobs : Option Int) : ServerState where
  queues := fun name =>
    if name = ['a'] then some (execQueue none [['1']] ['u'])
    else if name = ['b'] then some (execQueue maxJobs [] ['u'])
    else none
  jobs := fun id => if id = ['1'] then waitingJob else { waitingJob with jiQhdr := none }
  alljobs := [['1']]
  arraySummary := [['1']]
  svNumjobs := 1
  svJobstates := fun state => if state = .queued then 1 else 0
  users := fun user => if user = ['u'] then 1 else 0
  queueRank := 1

/-- What holds of the queues of a server with two of them. -/
theorem forall_of_two {a b : Name} {left right : Queue} {P : Name → Queue → Prop}
    (first : P a left) (second : P b right) (name : Name) (queue : Queue)
    (found : (if name = a then some left else if name = b then some right else none) = some queue) :
    P name queue := by
  split at found
  · cases found
    exact ‹name = a› ▸ first
  · split at found
    · cases found
      exact ‹name = b› ▸ second
    · contradiction

theorem listed_twoQueues : Listed (twoQueues maxJobs) := by
  have qhdr : ∀ id name, ((twoQueues maxJobs).jobs id).jiQhdr = some name →
      id = ['1'] ∧ name = ['a'] := by
    intro id name qhdr
    by_cases one : id = ['1']
    · exact ⟨one, by simpa [twoQueues, one, waitingJob, eq_comm] using qhdr⟩
    · simp [twoQueues, one] at qhdr
  refine ⟨⟨?_, ?_, ?_, ?_, ?_, ?_⟩, ?_⟩
  · refine forall_of_two ?_ ?_ <;> decide
  · refine forall_of_two ?_ ?_ <;> simp [execQueue]
  · refine forall_of_two ?_ ?_ <;> simp [execQueue]
  · refine forall_of_two ?_ ?_ <;> simp [execQueue, twoQueues, waitingJob, Job.jiIsArrayTemplate]
  · refine forall_of_two ?_ ?_ <;> simp [execQueue, twoQueues, waitingJob]
  · intro id name at_
    obtain ⟨rfl, rfl⟩ := qhdr id name at_
    simp [twoQueues]
  · intro id name at_
    obtain ⟨rfl, rfl⟩ := qhdr id name at_
    simp [twoQueues, waitingJob, stripServer]

theorem settled_twoQueues : Settled (twoQueues maxJobs) ['1'] ['a'] := by
  constructor
  · simp [twoQueues, waitingJob, ServerState.listOf, Job.jiIsArrayTemplate]
  · refine ⟨execQueue none [['1']] ['u'], rfl, ?_⟩
    simp [twoQueues, waitingJob, Queue.listOf, execQueue, Job.jiIsArrayTemplate]
  · refine forall_of_two (fun _ => rfl) fun mem => ?_
    simp [Queue.listOf, execQueue] at mem

theorem counts_twoQueues : (twoQueues maxJobs).Counts ['1'] := by
  rintro _ queue ⟨⟩ ⟨⟩
  rfl

/-- A user moves the job to a queue with room for one. -/
theorem localMove_allOrNothing_room :
    MoveSafe (twoQueues (some 1)) ['1'] ['a'] .user .pass .none ∧
      AllOrNothing (twoQueues (some 1)) ['1'] ['a']
        (localMove (twoQueues (some 1)) ['1'] [['a'], ['b']] .user .pass .none) := by
  have safe : MoveSafe (twoQueues (some 1)) ['1'] ['a'] .user .pass .none := by decide +kernel
  exact ⟨safe, (localMove_allOrNothing_iff _ _ _ _ _ _ _ (listed_twoQueues _)
    (settled_twoQueues _) rfl (counts_twoQueues _)).mpr safe⟩

/-- A manager moves the job to a queue without room: the limit is checked only
when the job has left its queue, and it ends up in none. -/
theorem localMove_full :
    ¬ ∀ (server : ServerState) (id name : Name) (queueNames : List Name) (mover : Mover)
      (checks : Checks) (depend : Pbse), Listed server → Settled server id name →
      (server.jobs id).jiQhdr = some name → server.Counts id →
      AllOrNothing server id name (localMove server id queueNames mover checks depend) := by
  intro claimed
  have atomic := claimed (twoQueues (some 0)) ['1'] ['a'] [['a'], ['b']] .manager .pass .none
    (listed_twoQueues _) (settled_twoQueues _) rfl (counts_twoQueues _)
  obtain ⟨queue, at_name, mem⟩ := (atomic.2 (by decide +kernel)).1.listed
  have gone : ((localMove (twoQueues (some 0)) ['1'] [['a'], ['b']] .manager .pass
      .none).2.queues ['a']).map Queue.quJobs = some [] := by decide +kernel
  have job : ((localMove (twoQueues (some 0)) ['1'] [['a'], ['b']] .manager .pass
      .none).2.jobs ['1']).jiIsArrayTemplate = false := by decide +kernel
  rw [at_name, Option.map_some, Option.some.injEq] at gone
  simp [Queue.listOf, job, gone] at mem

end Torque.Server
