import Torque.Server.CallCounts

/-!
# Calls that are not interrupted

A call of `svr_dequejob` or `svr_enquejob` that finds all locks free, and that no other call
comes in between, does what the models of the whole functions say.
-/

namespace Torque.Server

open Torque.Transition Function CallData ServerState CallSystem

/-- The lock of a queue is held for a while. -/
theorem unlock_lock {data : CallData} {name : Name} (free : data.locked name = false)
    (server server' : ServerState) :
    (((data.setServer server).lock name).setServer server').unlock name =
      data.setServer server' := by
  unfold lock unlock setServer
  simp only [update_idem]
  rw [← free, update_eq_self]

/-! ## `svr_dequejob` -/

/-- The two lists of a queue are left one after the other. -/
theorem dequeued_eq (queue : Queue) (id : Name) (job : Job) :
    queue.dequeued id job = ((queue.uncount job).unlistJob id job.jiState).unlistSum id := by
  unfold Queue.unlistJob Queue.unlistSum Queue.uncount Queue.dequeued
  by_cases mem : id ∈ queue.quJobs
  · simp only [mem, if_true]
  · simp only [mem, if_false, List.erase_of_not_mem mem]

/-- The job is taken out of all lists one after the other. -/
theorem dequeued_unlist (server : ServerState) (id name : Name) (queue : Queue) :
    let unlisted := (queue.uncount (server.jobs id)).unlistJob id (server.jobs id).jiState
    ((((server.uncount id name queue).setQueue name unlisted).leaveQueue id name
      unlisted).unlistAlljobs id) = server.dequeued id name queue := by
  have job : ((server.jobs id).uncount queue.quType).leave =
      (server.jobs id).dequeued queue.quType := rfl
  have kind : ((server.jobs id).dequeued queue.quType).jiIsArrayTemplate =
      (server.jobs id).jiIsArrayTemplate := rfl
  have state : ((server.jobs id).dequeued queue.quType).jiState = (server.jobs id).jiState := rfl
  unfold unlistAlljobs leaveQueue uncount dequeued setQueue setJob
  simp only [update_idem, update_self, ← dequeued_eq, job, kind, state]
  cases (server.jobs id).jiIsArrayTemplate with
  | true => simp
  | false =>
    by_cases mem : id ∈ server.alljobs
    · simp [mem]
    · simp [mem]

/-- A call that is not interrupted finds out about negative counters as the whole function does. -/
theorem badCt_eq (server : ServerState) (id name : Name) (queue : Queue) :
    let state := (server.jobs id).jiState
    let unlisted := (queue.uncount (server.jobs id)).unlistJob id state
    (decide (id ∈ queue.quJobs) && (unlisted.quNumjobs < 0 || unlisted.quNjstate state < 0) ||
      decide (id ∈ server.alljobs) && !(server.jobs id).jiIsArrayTemplate &&
        isNegative (server.dequeued id name queue) state) = server.badCt id queue := by
  unfold badCt isNegative Queue.unlistJob Queue.uncount dequeued countState
  by_cases mem : id ∈ queue.quJobs <;> by_cases known : id ∈ server.alljobs <;>
    cases kind : (server.jobs id).jiIsArrayTemplate <;>
    simp [mem, known, kind, Int.sub_eq_add_neg]

theorem dequeQueue_alone {data : CallData} {id name : Name} {queue : Queue}
    (found : data.server.queues name = some queue) (free : data.locked name = false) :
    data.dequeQueue id name false {} =
      let removed := data.setServer (data.server.dequeued id name queue)
      if data.server.badCt id queue then
        (removed.correctCt, .returns (if removed.server.svrFindJob id then .none else .jobnotfound))
      else (removed, .returns .none) := by
  have state : ((data.server.uncount id name queue).jobs id).jiState =
      (data.server.jobs id).jiState := by
    simp [uncount, setJob, Job.uncount]
  have counted : (data.server.uncount id name queue).queues name =
      some (queue.uncount (data.server.jobs id)) := update_self _ _ _
  have placed : ∀ (server : ServerState) unlisted,
      (server.setQueue name unlisted).queues name = some unlisted := fun _ _ => update_self _ _ _
  have unlocked : update data.locked name false = data.locked := by rw [← free, update_eq_self]
  have job : ∀ unlisted, (((data.server.uncount id name queue).setQueue name unlisted).leaveQueue
      id name unlisted).jobs id = (data.server.jobs id).dequeued queue.quType := by
    intro unlisted
    simp only [leaveQueue, uncount, setQueue, setJob, update_self]
    rfl
  rw [← badCt_eq data.server id name queue]
  unfold dequeQueue dequeJobs dequeSum dequeRest dequeAlljobs
  simp only [found, lock, setServer, counted, placed, state, Bool.false_eq_true, if_false, unlock,
    dequeued_unlist, update_idem, unlocked, unlockHeld, Option.elim, job]
  rfl

/-- `svr_dequejob` in one piece. -/
theorem deque_alone (data : CallData) (id : Name) :
    let data := { data with locked := fun _ => false }
    let result := svrDequejob data.server id data.queueNames
    data.deque id false {} = (data.setServer result.2, .returns result.1) := by
  intro data
  have free : ∀ name, data.locked name = false := fun _ => rfl
  clear_value data
  unfold deque svrDequejob
  by_cases running : (data.server.jobs id).jiState = .running ∧
      (data.server.jobs id).jiIsArrayTemplate = false
  · rw [if_pos running, if_pos running]
    rfl
  · rw [if_neg running, if_neg running]
    cases (data.server.jobs id).jiQhdr with
    | none => rfl
    | some name =>
      dsimp only
      rw [if_neg (by simp [free name])]
      cases found : data.server.queues name with
      | none =>
        unfold dequeQueue
        rw [found]
        rfl
      | some queue =>
        rw [dequeQueue_alone found (free name)]
        dsimp only
        split <;> rfl

/-! ## `svr_enquejob` -/

/-- The job enters the lists of the server one after the other. -/
theorem listJob_eq (server : ServerState) (id : Name) (prevJobId : Option Name) :
    server.listJob id prevJobId = (server.listAlljobs id prevJobId).listSummary id := by
  unfold listSummary
  unfold listJob listAlljobs
  cases kind : (server.jobs id).jiIsArrayTemplate with
  | true =>
    simp only [kind, if_true]
    split <;> rfl
  | false =>
    simp only [kind, Bool.false_eq_true, if_false]
    split <;> rfl

/-- A call goes on at so many stops. -/
def goOn (around : Surroundings) : Nat → CallData × Outcome → CallData × Outcome
  | n + 1, (data, .waits call) =>
    goOn around n (if data.isBlocked call then (data, .waits call) else data.resume around call)
  | _, result => result

theorem run_resume (around : Surroundings) (n : Nat) (system : CallSystem)
    (result : CallData × Outcome) :
    run callStep (system.settle [] result) (List.replicate n (.resume 0 around)) =
      system.settle [] (goOn around n result) := by
  induction n generalizing result with
  | zero => rfl
  | succ n ih =>
    obtain ⟨data, call | code⟩ := result
    · rw [List.replicate_succ, run_cons, goOn]
      cases blocked : data.isBlocked call with
      | true =>
        rw [if_pos rfl, ← ih]
        simp [callStep, settle, blocked]
      | false =>
        rw [if_neg Bool.false_ne_true, ← ih]
        rcases answer : data.resume around call with ⟨_, _ | _⟩ <;>
          simp [callStep, settle, blocked, answer]
    · exact (ih (data, .returns code)).trans (by cases n <;> rfl)

section

variable {data : CallData} {id name : Name} {queue : Queue} {depend : Pbse}

/-- The job enters the lists of its queue. -/
theorem goOn_lists (queue : Queue) (found : data.server.queues name = some queue)
    (isTemplate : Bool) :
    goOn { depend := depend } 2
        (data, .waits (if isTemplate then .enqueSum id name else .enqueRank id name)) =
      let result : Pbse × ServerState :=
        if isTemplate then data.server.intoSummary id name queue depend
        else
          match insertIntoAlljobsByRank data.server queue.quJobs id with
          | .alreadyInList => (.none, data.server)
          | .jobnotfound => (.jobnotfound, data.server)
          | .inserted list => (data.server.intoQueue id name queue list).intoSummary id name
            (queue.enqueued (data.server.jobs id) list) depend
      ((data.setServer result.2).unlock name, .returns result.1) := by
  cases isTemplate with
  | true => simp [goOn, isBlocked, resume, enqueSum, found]
  | false =>
    cases inserted : insertIntoAlljobsByRank data.server queue.quJobs id with
    | inserted list =>
      have placed : (data.server.intoQueue id name queue list).queues name =
          some (queue.enqueued (data.server.jobs id) list) := update_self _ _ _
      have job : (data.server.intoQueue id name queue list).jobs id =
          (data.server.jobs id).counted := update_self _ _ _
      have kind : (data.server.jobs id).counted.inSummary = (data.server.jobs id).inSummary := rfl
      cases summary : (data.server.jobs id).inSummary with
      | true =>
        simp [goOn, isBlocked, resume, enqueRank, enqueSum, found, inserted, summary, placed]
        rfl
      | false =>
        simp [goOn, isBlocked, resume, enqueRank, found, inserted, summary, intoSummary, job, kind]
        rfl
    | _ => simp [goOn, isBlocked, resume, enqueRank, found, inserted]

/-- The job enters the lists of the server, and then those of its queue. -/
theorem goOn_enqueSummary {server : ServerState} (free : data.locked name = false)
    (found : server.queues name = some queue) (prevJobId : Option Name) :
    goOn { depend := depend } 2
        (((data.setServer (server.listAlljobs id prevJobId)).lock name).enqueSummary id name) =
      (data.setServer (server.placeJob id name queue prevJobId depend).2,
        .returns (server.placeJob id name queue prevJobId depend).1) := by
  have listed : ((data.setServer (server.listAlljobs id prevJobId)).lock
      name).server.listSummary id = server.listJob id prevJobId :=
    (listJob_eq server id prevJobId).symm
  have jobs : (server.listJob id prevJobId).jobs = server.jobs := rfl
  have job : ((server.listJob id prevJobId).setJob id
      ((server.jobs id).setQhdr name)).jobs id = (server.jobs id).setQhdr name :=
    update_self _ _ _
  unfold enqueSummary placeJob
  rw [listed]
  dsimp only
  rw [jobs, goOn_lists queue]
  · rw [setServer_server, job]
    exact Prod.ext (unlock_lock free _ _) rfl
  · exact found

/-- `svr_enquejob` in one piece: at its third stop at the latest the call has returned. -/
theorem enque_alone (data : CallData) (quename : Name) (prevJobId : Option Name)
    (haveReservation beingRecovered : Bool) (returned : List Pbse) :
    let data := { data with locked := fun _ => false }
    run callStep ⟨data, [], returned⟩
        (.enque id quename prevJobId haveReservation beingRecovered ::
          List.replicate 3 (.resume 0 { depend := depend })) =
      let server := data.server.setJob id { data.server.jobs id with jiQueue := quename }
      let result := svrEnquejob server id prevJobId haveReservation beingRecovered depend
      ⟨data.setServer result.2, [], returned ++ [result.1]⟩ := by
  intro data
  have free : ∀ name, data.locked name = false := fun _ => rfl
  clear_value data
  have queue : ((data.server.setJob id { data.server.jobs id with jiQueue := quename }).jobs
      id).jiQueue = quename := by
    simp [setJob]
  refine (run_resume { depend := depend } 3 ⟨data, [], returned⟩ (_, .waits _)).trans ?_
  dsimp only
  generalize data.server.setJob id { data.server.jobs id with jiQueue := quename } = server
    at queue ⊢
  have unblocked : (data.setServer server).isBlocked
      (.enqueFind id quename prevJobId haveReservation beingRecovered) = false := by
    simp [isBlocked, setServer, free]
  rw [goOn, if_neg (Bool.eq_false_iff.1 unblocked), resume]
  unfold svrEnquejob enqueFind
  dsimp only
  rw [queue, setServer_server]
  cases found : server.findQueuebyname quename with
  | none => rfl
  | some queue =>
    dsimp only
    by_cases ghost : queue.ghostQueue = true ∧ beingRecovered = false
    · rw [if_pos ghost, if_pos ghost]
      rfl
    · rw [if_neg ghost, if_neg ghost]
      by_cases limit : enqueLimit (queue.useReservation haveReservation) (server.jobs id) ≠ .none
      · rw [if_pos limit, if_pos limit]
        rfl
      · rw [if_neg limit, if_neg limit, if_neg (by simp)]
        have placed : (server.setQueue (stripServer quename)
            (queue.useReservation haveReservation)).queues (stripServer quename) =
              some (queue.useReservation haveReservation) := update_self _ _ _
        exact congrArg (settle ⟨data, [], returned⟩ [])
          (goOn_enqueSummary (free _) placed prevJobId)

end

end Torque.Server
