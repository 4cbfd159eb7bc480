import Torque.Container.Ranked
import Torque.Server.Queue

/-!
# Queue lists and counters agree

`Consistent` is what the queue functions maintain between calls: every job is
in the lists of at most one queue, the one `ji_qhdr` points to, the counters of
a queue are the lengths of its lists, and the count of a user is never below
the number of queued jobs of that user.

The results of this module say what `svr_dequejob` and `svr_enquejob` do to a
consistent server; moves and orders are assembled from them.
-/

namespace Torque.Server

open Torque.Insertion Function ServerState

variable {id : Name} {server : ServerState} {name : Name} {queue : Queue}

/-! ## Inserting by rank -/

theorem insertIntoAlljobsByRank_eq_of_not_mem (server : ServerState) {list : List Name}
    (fresh : id ∉ list) :
    insertIntoAlljobsByRank server list id =
      if server.svrFindJob id then .inserted (insertBehind (server.lowerRank id) id list)
      else .jobnotfound :=
  if_neg fun passed => fresh ((List.rtakeWhile_suffix _ _).subset passed)

theorem insertIntoAlljobsByRank_of_not_mem (server : ServerState) {list : List Name}
    (fresh : id ∉ list) :
    (server.svrFindJob id = true ∧ ∃ list', list'.Perm (id :: list) ∧
        insertIntoAlljobsByRank server list id = .inserted list') ∨
      server.svrFindJob id = false ∧ insertIntoAlljobsByRank server list id = .jobnotfound := by
  rw [insertIntoAlljobsByRank_eq_of_not_mem server fresh]
  cases found : server.svrFindJob id with
  | true => exact .inl ⟨rfl, _, insertBehind_perm (server.lowerRank id) id list, rfl⟩
  | false => exact .inr ⟨rfl, rfl⟩

section

open Torque.Container

/-- The code and the list that stand for the result. -/
def RankInsert.outcome (list : List Name) : RankInsert → RankCode × List Name
  | .alreadyInList => (.alreadyInList, list)
  | .jobnotfound => (.jobNotFound, list)
  | .inserted list => (.none, list)

variable {c : ItemContainer Name (RankedJob Name)} {order : List Nat}
  {list front back : List (Item Name (RankedJob Name))} {pjob : RankedJob Name}

/-- A job that the container lists is found among the names. -/
theorem insertIntoAlljobsByRank_of_ranked (rep : c.Ranked order list)
    (ranks : ∀ thing ∈ list, (server.jobs thing.ptr.jobid).qrank = thing.ptr.qrank)
    (listed : pjob ∈ list.map Item.ptr) :
    insertIntoAlljobsByRank server (list.map fun thing => thing.ptr.jobid) pjob.jobid =
      .alreadyInList := by
  have sorted : (list.map fun thing => thing.ptr.jobid).Pairwise fun a b =>
      (server.jobs a).qrank ≤ (server.jobs b).qrank := by
    refine List.pairwise_map.mpr ((List.pairwise_map.mp rep.sorted).imp_of_mem ?_)
    intro a b left right le
    rwa [ranks a left, ranks b right]
  obtain ⟨thing, mem, rfl⟩ := List.mem_map.mp listed
  exact if_pos (mem_rtakeWhile_of_sorted sorted (List.mem_map_of_mem mem))

/-- The name goes where the container puts the job. -/
theorem insertBehind_lowerRank_map (own : (server.jobs pjob.jobid).qrank = pjob.qrank)
    (ranks : ∀ thing ∈ front ++ back, (server.jobs thing.ptr.jobid).qrank = thing.ptr.qrank)
    (last : ∀ thing ∈ front.getLast?, thing.ptr.qrank < pjob.qrank)
    (least : ∀ thing ∈ back, pjob.qrank ≤ thing.ptr.qrank) :
    insertBehind (server.lowerRank pjob.jobid) pjob.jobid
        ((front ++ back).map fun thing => thing.ptr.jobid) =
      (front ++ ⟨pjob.jobid, pjob⟩ :: back).map fun thing => thing.ptr.jobid := by
  obtain ⟨fronts, backs⟩ := List.forall_mem_append.mp ranks
  rw [List.map_append, List.map_append, List.map_cons]
  apply insertBehind_append
  · intro name listed
    rw [List.getLast?_map] at listed
    obtain ⟨thing, mem, rfl⟩ := Option.mem_map.mp listed
    rw [lowerRank, fronts thing (List.mem_of_mem_getLast? mem), own]
    exact decide_eq_true (last thing mem)
  · intro name listed
    obtain ⟨thing, mem, rfl⟩ := List.mem_map.mp listed
    rw [lowerRank, backs thing mem, own]
    exact decide_eq_false (not_lt.mpr (least thing mem))

/-- What the model of the lists as containers does is what the model of the lists as names does:
both give the same code, and the same jobs in the same order. -/
theorem insertIntoAlljobsByRank_refines (rep : c.Ranked order list) (server : ServerState)
    {granted : Bool} (room : c.canInsert granted = true)
    (ranks : ∀ job ∈ pjob :: list.map Item.ptr, (server.jobs job.jobid).qrank = job.qrank)
    (distinct : ∀ job ∈ list.map Item.ptr, job.jobid = pjob.jobid → job = pjob) :
    let result := c.insertIntoAlljobsByRank (server.svrFindJob pjob.jobid) granted pjob
    let names (list : List (Item Name (RankedJob Name))) := list.map fun thing => thing.ptr.jobid
    ∃ order' list', result.2.Ranked order' list' ∧
      (result.1, names list') =
        (insertIntoAlljobsByRank server (names list) pjob.jobid).outcome (names list) := by
  intro result names
  obtain ⟨own, others⟩ := List.forall_mem_cons.mp ranks
  replace others := List.forall_mem_map.mp others
  by_cases listed : pjob ∈ list.map Item.ptr
  · have done : result = (.alreadyInList, c) :=
      rep.insertIntoAlljobsByRank_listed _ granted listed
    rw [done, insertIntoAlljobsByRank_of_ranked rep others listed]
    exact ⟨order, list, rep, rfl⟩
  · have fresh := jobid_not_mem distinct listed
    have absent : pjob.jobid ∉ names list := by
      rwa [List.map_map] at fresh
    rw [insertIntoAlljobsByRank_eq_of_not_mem server absent]
    cases known : server.svrFindJob pjob.jobid with
    | false =>
      have done : result = (.jobNotFound, c) := by
        simp only [result, known]
        exact rep.insertIntoAlljobsByRank_unknown granted fresh
      rw [done]
      exact ⟨order, list, rep, rfl⟩
    | true =>
      obtain ⟨code, order', front, back, rfl, ranked, last, least⟩ :=
        rep.insertIntoAlljobsByRank_able granted fresh room
      simp only [result, known]
      refine ⟨order', _, ranked, ?_⟩
      rw [code, if_pos trivial, insertBehind_lowerRank_map own others last least]
      rfl

end

/-! ## Counting a job -/

/-- A job is added to the counts of its state, or taken from them. -/
theorem countQueuedJobs_countState (queue : Queue) (state : JobState) (change : Int) :
    queue.quNumjobs + change - countState queue.quNjstate state change .complete =
      queue.countQueuedJobs + if state = .complete then 0 else change := by
  unfold Queue.countQueuedJobs countState
  split
  · next complete =>
    rw [complete, update_self]
    omega
  · next active =>
    rw [update_of_ne (Ne.symm active)]
    omega

theorem dequeued_countQueuedJobs (queue : Queue) (id : Name) (job : Job) :
    (queue.dequeued id job).countQueuedJobs = queue.countQueuedJobs -
      if id ∈ queue.quJobs ∧ job.jiState ≠ .complete then 1 else 0 := by
  have change := countQueuedJobs_countState queue job.jiState (-1)
  unfold Queue.dequeued
  by_cases listed : id ∈ queue.quJobs
  · rw [if_pos listed, if_pos listed]
    refine change.trans ?_
    grind
  · simp [listed, Queue.countQueuedJobs]

/-! ## Placing a job -/

/-- The queue when the job is in its lists. -/
def Queue.placed (queue : Queue) (job : Job) (quJobs quJobsArraySum : List Name) : Queue :=
  { (if job.jiIsArrayTemplate then queue else queue.enqueued job quJobs) with
    quJobsArraySum := quJobsArraySum }

/-- The job when it is in the lists of a queue. -/
def Job.placed (job : Job) (name : Name) : Job :=
  if job.jiIsArrayTemplate then job.setQhdr name else (job.setQhdr name).counted

/-- `server'` is `server` with the job in the lists of one queue. -/
structure Placed (server server' : ServerState) (id name : Name) (queue : Queue)
    (prevJobId : Option Name) : Prop where
  queues : ∃ quJobs quJobsArraySum,
    quJobs.Perm (id :: queue.quJobs) ∧
    (if (server.jobs id).inSummary then quJobsArraySum.Perm (id :: queue.quJobsArraySum)
      else quJobsArraySum = queue.quJobsArraySum) ∧
    server'.queues = update server.queues name
      (some (queue.placed (server.jobs id) quJobs quJobsArraySum))
  jobs : server'.jobs = update server.jobs id ((server.jobs id).placed name)
  alljobs : server'.alljobs = (server.listJob id prevJobId).alljobs
  arraySummary : (server.jobs id).inSummary = true → id ∈ server'.arraySummary

/-- `server'` is `server` with a job that points to its queue but is in none of
the lists. -/
structure Unlisted (server server' : ServerState) (id name : Name) : Prop where
  queues : server'.queues = server.queues
  jobs : server'.jobs = update server.jobs id ((server.jobs id).setQhdr name)

@[simp]
theorem setQueue_jobs (server : ServerState) (name : Name) (queue : Queue) :
    (server.setQueue name queue).jobs = server.jobs :=
  rfl

@[simp]
theorem setQueue_queues (server : ServerState) (name : Name) (queue : Queue) :
    (server.setQueue name queue).queues = update server.queues name (some queue) :=
  rfl

@[simp]
theorem setJob_jobs (server : ServerState) (id : Name) (job : Job) :
    (server.setJob id job).jobs = update server.jobs id job :=
  rfl

/-- The last step: the job is listed with the array templates if it belongs
there. -/
theorem intoSummary_of_not_mem (depend : Pbse) (fresh : id ∉ queue.quJobsArraySum)
    (found : server.svrFindJob id = true) (at_name : server.queues name = some queue) :
    ∃ sum, (if (server.jobs id).inSummary then sum.Perm (id :: queue.quJobsArraySum)
        else sum = queue.quJobsArraySum) ∧
      server.intoSummary id name queue depend =
        (enqueDepend queue (server.jobs id) depend,
          server.setQueue name { queue with quJobsArraySum := sum }) := by
  unfold intoSummary
  by_cases summary : (server.jobs id).inSummary = true
  · rcases insertIntoAlljobsByRank_of_not_mem server fresh with
      ⟨-, sum, perm, inserted⟩ | ⟨missing, -⟩
    · refine ⟨sum, by simpa [summary] using perm, ?_⟩
      simp only [if_pos summary, inserted]
    · rw [missing] at found
      contradiction
  · refine ⟨queue.quJobsArraySum, by simp [summary], ?_⟩
    simp only [if_neg summary, setQueue]
    rw [← at_name, update_eq_self]

theorem mem_listJob_arraySummary (prevJobId : Option Name)
    (belongs : (server.jobs id).inSummary = true) :
    id ∈ (server.listJob id prevJobId).arraySummary := by
  by_cases present : id ∈ server.arraySummary
  · simp [listJob, present]
  · simp [listJob, present, belongs]

theorem mem_listJob_alljobs (job : (server.jobs id).jiIsArrayTemplate = false) :
    id ∈ (server.listJob id none).alljobs := by
  by_cases present : id ∈ server.alljobs
  · simp [listJob, insertAlljobs, job, present]
  · simp [listJob, insertAlljobs, job, present]

/-- Behind the checks a job that is in no list of the queue gets into all lists
it belongs to, unless it cannot be found in the server's lists. -/
theorem placeJob_cases (prevJobId : Option Name) (depend : Pbse)
    (at_name : server.queues name = some queue) (freshJobs : id ∉ queue.quJobs)
    (freshSum : id ∉ queue.quJobsArraySum) :
    ((server.placeJob id name queue prevJobId depend).1 =
        enqueDepend queue (server.jobs id) depend ∧
      Placed server (server.placeJob id name queue prevJobId depend).2 id name queue prevJobId) ∨
    (prevJobId ≠ none ∧
      (server.placeJob id name queue prevJobId depend).1 = .jobnotfound ∧
      Unlisted server (server.placeJob id name queue prevJobId depend).2 id name) := by
  unfold placeJob
  generalize listedEq : (server.listJob id prevJobId).setJob id
    ((server.jobs id).setQhdr name) = listed
  have queues : listed.queues = server.queues := by
    rw [← listedEq]
    rfl
  have jobs : listed.jobs = update server.jobs id ((server.jobs id).setQhdr name) := by
    rw [← listedEq]
    rfl
  have job : listed.jobs id = (server.jobs id).setQhdr name := by
    rw [jobs, update_self]
  have summary : (server.jobs id).inSummary = true → id ∈ listed.arraySummary := by
    intro belongs
    rw [← listedEq]
    exact mem_listJob_arraySummary prevJobId belongs
  have listAtName : listed.queues name = some queue := by rw [queues, at_name]
  cases template : (server.jobs id).jiIsArrayTemplate with
  | true =>
    have belongs : (server.jobs id).inSummary = true := by simp [Job.inSummary, template]
    have found : listed.svrFindJob id = true := by
      simp [svrFindJob, summary belongs]
    obtain ⟨sum, perm, placed⟩ := intoSummary_of_not_mem depend freshSum found listAtName
    rw [job] at perm placed
    left
    rw [if_pos rfl, placed]
    refine ⟨rfl, ⟨id :: queue.quJobs, sum, .refl _, perm, ?_⟩, ?_, ?_, fun _ => summary belongs⟩
    · simp [queues, Queue.placed, template]
    · simp [jobs, Job.placed, template]
    · rw [← listedEq]
      rfl
  | false =>
    rw [if_neg Bool.false_ne_true]
    rcases insertIntoAlljobsByRank_of_not_mem listed freshJobs with
      ⟨found, list, perm, inserted⟩ | ⟨missing, notfound⟩
    · left
      rw [inserted]
      dsimp only
      generalize queuedEq : listed.intoQueue id name queue list = queued
      have queuedAtName : queued.queues name = some (queue.enqueued (server.jobs id) list) := by
        rw [← queuedEq]
        simp [intoQueue, job]
        rfl
      have queuedJob : queued.jobs id = ((server.jobs id).setQhdr name).counted := by
        rw [← queuedEq]
        simp [intoQueue, job]
      have stillFound : queued.svrFindJob id = true := by
        rw [← queuedEq]
        exact found
      have stillFresh : id ∉ (queue.enqueued (server.jobs id) list).quJobsArraySum := freshSum
      obtain ⟨sum, sumPerm, placed⟩ :=
        intoSummary_of_not_mem depend stillFresh stillFound queuedAtName
      rw [queuedJob] at sumPerm placed
      rw [placed]
      refine ⟨rfl, ⟨list, sum, perm, sumPerm, ?_⟩, ?_, ?_, ?_⟩
      · rw [← queuedEq]
        simp [intoQueue, queues, Queue.placed, template]
      · rw [← queuedEq]
        simp [intoQueue, jobs, Job.placed, template]
      · rw [← queuedEq, ← listedEq]
        rfl
      · intro belongs
        rw [← queuedEq]
        exact summary belongs
    · right
      rw [notfound]
      refine ⟨?_, rfl, queues, jobs⟩
      rintro rfl
      have listedIn : id ∈ listed.alljobs := by
        rw [← listedEq]
        exact mem_listJob_alljobs template
      simp [svrFindJob, listedIn] at missing

/-- What `svr_enquejob` can do with a job that is in no list, with the
condition under which it does it. -/
inductive Enqued (server : ServerState) (id : Name) (prevJobId : Option Name)
    (haveReservation beingRecovered : Bool) (depend : Pbse) : Pbse × ServerState → Prop where
  | unkque (missing : server.findQueuebyname (server.jobs id).jiQueue = none) :
      Enqued server id prevJobId haveReservation beingRecovered depend (.unkque, server)
  | ghostqueue {queue : Queue}
      (found : server.queues (stripServer (server.jobs id).jiQueue) = some queue)
      (ghost : queue.ghostQueue = true ∧ beingRecovered = false) :
      Enqued server id prevJobId haveReservation beingRecovered depend (.ghostqueue, server)
  | limit {queue : Queue} {code : Pbse}
      (found : server.queues (stripServer (server.jobs id).jiQueue) = some queue)
      (real : ¬ (queue.ghostQueue = true ∧ beingRecovered = false))
      (full : enqueLimit (queue.useReservation haveReservation) (server.jobs id) = code)
      (error : code ≠ .none) :
      Enqued server id prevJobId haveReservation beingRecovered depend
        (code, server.setQueue (stripServer (server.jobs id).jiQueue)
          (queue.useReservation haveReservation))
  | placed {queue : Queue} {server' : ServerState}
      (found : server.queues (stripServer (server.jobs id).jiQueue) = some queue)
      (real : ¬ (queue.ghostQueue = true ∧ beingRecovered = false))
      (room : enqueLimit (queue.useReservation haveReservation) (server.jobs id) = .none)
      (placed : Placed (server.setQueue (stripServer (server.jobs id).jiQueue)
        (queue.useReservation haveReservation)) server' id
        (stripServer (server.jobs id).jiQueue) (queue.useReservation haveReservation) prevJobId) :
      Enqued server id prevJobId haveReservation beingRecovered depend
        (enqueDepend queue (server.jobs id) depend, server')
  | unlisted {queue : Queue} {server' : ServerState}
      (found : server.queues (stripServer (server.jobs id).jiQueue) = some queue)
      (follows : prevJobId ≠ none)
      (unlisted : Unlisted (server.setQueue (stripServer (server.jobs id).jiQueue)
        (queue.useReservation haveReservation)) server' id
        (stripServer (server.jobs id).jiQueue)) :
      Enqued server id prevJobId haveReservation beingRecovered depend (.jobnotfound, server')

/-- The job is in no list of any queue. -/
def ServerState.Free (server : ServerState) (id : Name) : Prop :=
  ∀ name queue, server.queues name = some queue → id ∉ queue.quJobs ∧ id ∉ queue.quJobsArraySum

section

variable (queue : Queue) (haveReservation : Bool)

@[simp]
theorem useReservation_quJobs : (queue.useReservation haveReservation).quJobs = queue.quJobs := by
  cases haveReservation <;> rfl

@[simp]
theorem useReservation_quJobsArraySum :
    (queue.useReservation haveReservation).quJobsArraySum = queue.quJobsArraySum := by
  cases haveReservation <;> rfl

theorem enqueDepend_useReservation (job : Job) (depend : Pbse) :
    enqueDepend (queue.useReservation haveReservation) job depend =
      enqueDepend queue job depend := by
  cases haveReservation <;> rfl

end

theorem svrEnquejob_cases (free : server.Free id) (prevJobId : Option Name)
    (haveReservation beingRecovered : Bool) (depend : Pbse) :
    Enqued server id prevJobId haveReservation beingRecovered depend
      (svrEnquejob server id prevJobId haveReservation beingRecovered depend) := by
  unfold svrEnquejob
  dsimp only
  cases found : server.findQueuebyname (server.jobs id).jiQueue with
  | none => exact .unkque found
  | some queue =>
    dsimp only
    by_cases ghost : queue.ghostQueue = true ∧ beingRecovered = false
    · rw [if_pos ghost]
      exact .ghostqueue found ghost
    · rw [if_neg ghost]
      by_cases room : enqueLimit (queue.useReservation haveReservation) (server.jobs id) = .none
      · rw [if_neg (not_not.mpr room)]
        generalize reservedEq : server.setQueue (stripServer (server.jobs id).jiQueue)
          (queue.useReservation haveReservation) = reserved
        have at_name : reserved.queues (stripServer (server.jobs id).jiQueue) =
            some (queue.useReservation haveReservation) := by
          rw [← reservedEq]
          simp
        obtain ⟨freshJobs, freshSum⟩ := free _ _ found
        have cases := placeJob_cases prevJobId depend at_name (by simpa using freshJobs)
          (by simpa using freshSum)
        rw [jobs, enqueDepend_useReservation] at cases
        revert cases
        generalize reserved.placeJob id _ _ prevJobId depend = result
        obtain ⟨code, server'⟩ := result
        subst reservedEq
        rintro (⟨rfl, placed⟩ | ⟨follows, rfl, unlisted⟩)
        · exact .placed found ghost room placed
        · exact .unlisted found follows unlisted
      · rw [if_pos room]
        exact .limit found ghost rfl room

/-! ## The lists of a server -/

/-- `PBS_MAXQUEUENAME`. -/
def pbsMaxqueuename : Nat := 15

/-- Jobs are in the lists of the queue they point to and of no other. -/
structure Lists (server : ServerState) : Prop where
  names : ∀ name queue, server.queues name = some queue → name.length ≤ pbsMaxqueuename
  nodupJobs : ∀ name queue, server.queues name = some queue → queue.quJobs.Nodup
  nodupSum : ∀ name queue, server.queues name = some queue → queue.quJobsArraySum.Nodup
  qhdrJobs : ∀ name queue, server.queues name = some queue → ∀ id ∈ queue.quJobs,
    (server.jobs id).jiQhdr = some name ∧ (server.jobs id).jiIsArrayTemplate = false
  qhdrSum : ∀ name queue, server.queues name = some queue → ∀ id ∈ queue.quJobsArraySum,
    (server.jobs id).jiQhdr = some name
  qhdrQueue : ∀ id name, (server.jobs id).jiQhdr = some name → (server.queues name).isSome

/-- In addition, `ji_queue` names the queue a job points to. -/
structure Listed (server : ServerState) : Prop extends Lists server where
  named : ∀ id name, (server.jobs id).jiQhdr = some name →
    stripServer (server.jobs id).jiQueue = name

section

variable {server server' : ServerState} {name : Name} {queue queue' : Queue}

variable (lists : Lists server) (at_name : server.queues name = some queue)
include lists at_name

/-- The lists of one queue change. -/
theorem Lists.relist (jobs : server'.jobs = server.jobs)
    (queues : server'.queues = update server.queues name (some queue'))
    (nodupJobs : queue'.quJobs.Nodup) (nodupSum : queue'.quJobsArraySum.Nodup)
    (qhdrJobs : ∀ id ∈ queue'.quJobs,
      (server.jobs id).jiQhdr = some name ∧ (server.jobs id).jiIsArrayTemplate = false)
    (qhdrSum : ∀ id ∈ queue'.quJobsArraySum, (server.jobs id).jiQhdr = some name) :
    Lists server' := by
  constructor
  · rw [queues]
    exact forall_update_some (lists.names name queue at_name) lists.names
  · rw [queues]
    exact forall_update_some nodupJobs lists.nodupJobs
  · rw [queues]
    exact forall_update_some nodupSum lists.nodupSum
  · rw [queues, jobs]
    exact forall_update_some qhdrJobs lists.qhdrJobs
  · rw [queues, jobs]
    exact forall_update_some qhdrSum lists.qhdrSum
  · intro id other qhdr
    rw [jobs] at qhdr
    rw [queues]
    by_cases same : other = name
    · simp [same]
    · rw [update_of_ne same]
      exact lists.qhdrQueue id other qhdr

/-- The order of the jobs in a queue does not matter. -/
theorem Lists.permute (jobs : server'.jobs = server.jobs)
    (queues : server'.queues = update server.queues name (some queue'))
    (perm : queue'.quJobs.Perm queue.quJobs) (sum : queue'.quJobsArraySum = queue.quJobsArraySum) :
    Lists server' := by
  apply lists.relist at_name jobs queues
  · exact perm.nodup_iff.mpr (lists.nodupJobs name queue at_name)
  · exact sum ▸ lists.nodupSum name queue at_name
  · exact fun id mem => lists.qhdrJobs name queue at_name id (perm.mem_iff.mp mem)
  · exact sum ▸ lists.qhdrSum name queue at_name

/-- A queue of the same name with the same lists changes nothing. -/
theorem Lists.setQueue (sameJobs : queue'.quJobs = queue.quJobs)
    (sameSum : queue'.quJobsArraySum = queue.quJobsArraySum) :
    Lists (server.setQueue name queue') :=
  lists.permute at_name rfl rfl (.of_eq sameJobs) sameSum

end

section

variable (lists : Lists server)
include lists

/-- A job is in no list of a queue it does not point to. -/
theorem Lists.elsewhere (ne : (server.jobs id).jiQhdr ≠ some name)
    (at_name : server.queues name = some queue) :
    id ∉ queue.quJobs ∧ id ∉ queue.quJobsArraySum :=
  ⟨fun mem => ne (lists.qhdrJobs name queue at_name id mem).1,
    fun mem => ne (lists.qhdrSum name queue at_name id mem)⟩

variable (qhdr : (server.jobs id).jiQhdr = some name) (at_name : server.queues name = some queue)
include qhdr at_name

/-- A job that has been taken out of its queue is in no list. -/
theorem Lists.free_dequeued : (server.dequeued id name queue).Free id := by
  intro other found at_other
  rcases update_some_cases at_other with ⟨rfl, rfl⟩ | ⟨ne, at_other⟩
  · exact ⟨(lists.nodupJobs other queue at_name).not_mem_erase,
      (lists.nodupSum other queue at_name).not_mem_erase⟩
  · exact lists.elsewhere (by simpa [qhdr] using ne.symm) at_other

end

/-- The job is taken out of its queue only if it does not run, and it has
one. -/
def Job.Removable (job : Job) : Prop :=
  ¬ (job.jiState = .running ∧ job.jiIsArrayTemplate = false) ∧ job.jiQhdr ≠ none
deriving Decidable

/-- The counters that count the job are positive. -/
def ServerState.Counts (server : ServerState) (id : Name) : Prop :=
  ∀ name queue, (server.jobs id).jiQhdr = some name → server.queues name = some queue →
    server.badCt id queue = false

/-- A removable job that is counted is taken out of its queue, and any other job stays where it
is. -/
theorem svrDequejob_cases (lists : Lists server) (id : Name) (queueNames : List Name)
    (counts : server.Counts id) :
    ((server.jobs id).Removable ∧ ∃ name queue, (server.jobs id).jiQhdr = some name ∧
        server.queues name = some queue ∧
        svrDequejob server id queueNames = (.none, server.dequeued id name queue)) ∨
      ¬ (server.jobs id).Removable ∧ ∃ code, code ≠ .none ∧
        svrDequejob server id queueNames = (code, server) := by
  unfold svrDequejob
  by_cases running : (server.jobs id).jiState = .running ∧
      (server.jobs id).jiIsArrayTemplate = false
  · right
    rw [if_pos running]
    exact ⟨fun removable => removable.1 running, .badstate, by simp, rfl⟩
  · rw [if_neg running]
    cases qhdr : (server.jobs id).jiQhdr with
    | none => exact .inr ⟨fun removable => removable.2 qhdr, .jobNotInQueue, by simp, rfl⟩
    | some name =>
      obtain ⟨queue, at_name⟩ := Option.isSome_iff_exists.mp (lists.qhdrQueue id name qhdr)
      left
      refine ⟨⟨running, by simp [qhdr]⟩, name, queue, rfl, at_name, ?_⟩
      simp only [at_name, counts name queue qhdr at_name, Bool.false_eq_true, if_false]

end Torque.Server
