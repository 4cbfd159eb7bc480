import Torque.Server.Types
import Torque.Transition.Run

/-!
# Routing a job

A job in a routing queue is offered to the queue's destinations one after the
other.  `ji_lastdest` remembers how far the list has been tried, across calls;
`ji_rejectdest` lists the destinations that rejected the job for good; and
`ji_retryok`, which says that some destination asked to be tried again, is
reset by every call.

A destination on another server answers only when the job has been sent, so an
attempt can stop in the middle of the list and be resumed by
`finish_routing_processing`.  What the destinations answer is an input of the
model; the log of their answers is kept beside the job for the specification.
-/

namespace Torque.Server.Route

open Torque.Transition List

/-- `PBS_MAXROUTEDEST`. -/
def pbsMaxroutedest : Nat := 15 + 1024 + 5 + 2

/-- The routing fields of a job. -/
structure RouteJob where
  jiState : JobState
  /-- the substate is `JOB_SUBSTATE_ABORT` -/
  aborting : Bool
  jiQueue : String
  jiDestin : String
  jiLastdest : Nat
  jiRetryok : Bool
  jiRejectdest : List String
  jiQuetime : Int
  jiRteretry : Int
  deriving DecidableEq, Repr

/-- The attributes of a routing queue. -/
structure RouteQueue where
  /-- `QR_ATR_RouteDestin`, if set -/
  routeDestin : Option (List String)
  /-- the queue type is `QTYPE_RoutePush` -/
  routePush : Bool
  routeHeld : Bool
  routeWaiting : Bool
  started : Bool
  maxRun : Option Int
  /-- `qu_njstate[JOB_STATE_TRANSIT]` -/
  njTransit : Int
  routeRetryTime : Option Int
  routeLifeTime : Option Int
  deriving DecidableEq, Repr

/-- The list of destinations of a queue. -/
def RouteQueue.destinations (queue : RouteQueue) : List String :=
  queue.routeDestin.getD []

/-- What a destination does with a job it is offered. -/
inductive Answer where
  /-- the job is now in the destination -/
  | accepted
  /-- the job is being sent, the destination answers later -/
  | deferred
  | retry
  | rejected
  /-- a local move broke down with a code that is none of the above -/
  | failed
  /-- the job could not be handed to a thread that sends it -/
  | unsent
  deriving DecidableEq, Repr

/-- The codes returned by `svr_movejob`. -/
inductive MoveCode where
  | permFailure
  | success
  | retry
  | deferred
  | other
  deriving DecidableEq, Repr

/-- The result of a routing function: its code, the job, and what the
destinations that were asked answered. -/
structure Routed (Code : Type) where
  code : Code
  job : RouteJob
  asked : List (String × Answer)
  deriving DecidableEq, Repr

/-! ## The routing functions -/

section

variable (job : RouteJob)

/-- The next destination of the list is taken. -/
def RouteJob.advance : RouteJob :=
  { job with jiLastdest := job.jiLastdest + 1 }

variable (destination : String)

/-- The destination is written to the job. -/
def RouteJob.setDestin : RouteJob :=
  { job with jiDestin := destination }

/-- Some destination asked to be tried again. -/
def RouteJob.setRetryok (retryok : Bool) : RouteJob :=
  { job with jiRetryok := retryok }

/-- `add_dest`: the destination of the job is marked as bad. -/
def addDest : RouteJob :=
  { job with jiRejectdest := job.jiRejectdest ++ [job.jiDestin] }

/-- `is_bad_dest`. -/
def isBadDest (dest : String) : Bool :=
  job.jiRejectdest.any fun bad => bad == dest

/-- `svr_movejob` without a request.  A name that is too long is refused
before it becomes the job's destination, and a move to the queue the job is in
succeeds without doing anything. -/
def svrMovejob (answer : Answer) : Routed MoveCode :=
  if pbsMaxroutedest ≤ destination.length then
    ⟨.permFailure, job, []⟩
  else
    let job := job.setDestin destination
    if job.jiQueue = job.jiDestin then
      ⟨.success, job, []⟩
    else
      match answer with
      | .accepted =>
        ⟨.success, { job with jiQueue := destination, jiLastdest := 0 }, [(destination, answer)]⟩
      | .deferred => ⟨.success, { job with jiState := .transit }, [(destination, answer)]⟩
      | .retry => ⟨.retry, job, [(destination, answer)]⟩
      | .rejected => ⟨.permFailure, job, [(destination, answer)]⟩
      | .failed => ⟨.other, job, [(destination, answer)]⟩
      | .unsent => ⟨.other, { job with jiState := .transit }, [(destination, answer)]⟩

end

/-- The loop of `default_router` over the destinations from `ji_lastdest` on. -/
def routeFrom (answers : Nat → Answer) (retryTime : Int) :
    List String → RouteJob → Routed Pbse
  | [], job =>
    -- have tried all
    if job.jiRetryok then
      ⟨.none, { job with jiLastdest := 0, jiRteretry := retryTime }, []⟩
    else
      ⟨.routerej, { job with jiLastdest := 0 }, []⟩
  | destination :: rest, job =>
    if isBadDest job destination then
      routeFrom answers retryTime rest job.advance
    else
      let moved := svrMovejob job.advance destination (answers job.jiLastdest)
      let routed : Routed Pbse :=
        match moved.code with
        | .permFailure => routeFrom answers retryTime rest (addDest moved.job)
        | .success => ⟨.none, moved.job, []⟩
        | .deferred => ⟨.none, moved.job, []⟩
        | .retry => routeFrom answers retryTime rest (moved.job.setRetryok true)
        | .other => routeFrom answers retryTime rest moved.job
      { routed with asked := moved.asked ++ routed.asked }

section

variable (job : RouteJob)

/-- `default_router`. -/
def defaultRouter (queue : RouteQueue) (retryTime : Int) (answers : Nat → Answer) : Routed Pbse :=
  routeFrom answers retryTime (queue.destinations.drop job.jiLastdest) (job.setRetryok false)

/-- `PBS_NET_RETRY_TIME`. -/
def pbsNetRetryTime : Int := 30

/-- The flag `bad_state`, or `none` if the job's state ends `job_route` at
once. -/
def badState (queue : RouteQueue) : Option Bool :=
  match job.jiState with
  | .transit => none
  | .queued => some false
  | .held => some (if queue.routePush then false else !queue.routeHeld)
  | .waiting => some (!queue.routeWaiting)
  | _ => none

/-- What a call of `job_route` meets: the job's queue if it has one, the time,
and the answer of each destination. -/
structure Attempt where
  queue : Option RouteQueue
  timeNow : Int
  answers : Nat → Answer

/-- The destinations an attempt goes through. -/
def Attempt.destinations (attempt : Attempt) : List String :=
  (attempt.queue.map RouteQueue.destinations).getD []

/-- `job_route`. -/
def jobRoute (attempt : Attempt) : Routed Pbse :=
  match attempt.queue with
  | none => ⟨.badstate, job, []⟩
  | some queue =>
    match badState job queue with
    | none => ⟨.none, job, []⟩
    | some bad =>
      if queue.started = false then
        ⟨.none, job, []⟩
      else if queue.maxRun.any (fun limit => limit ≤ queue.njTransit) then
        ⟨.none, job, []⟩
      else
        let retryTime := attempt.timeNow + queue.routeRetryTime.getD pbsNetRetryTime
        let life := (queue.routeLifeTime.map (job.jiQuetime + ·)).getD 0
        if life ≠ 0 ∧ life < attempt.timeNow then
          ⟨.routeexpd, job, []⟩
        else if bad then
          ⟨.none, job, []⟩
        else
          -- site_alt_router is default_router as well
          defaultRouter job queue retryTime attempt.answers

/-- `job_route` gets as far as `default_router`. -/
def entersRouter (attempt : Attempt) : Bool :=
  attempt.queue.any fun queue =>
    decide (badState job queue = some false) && queue.started &&
      !queue.maxRun.any (fun limit => limit ≤ queue.njTransit) &&
      let life := (queue.routeLifeTime.map (job.jiQuetime + ·)).getD 0
      !decide (life ≠ 0 ∧ life < attempt.timeNow)

/-- The outcome of sending a job to another server. -/
inductive Locution where
  | success
  | fail
  | requeue
  | retry
  | done
  deriving DecidableEq, Repr

/-- `reroute_job`: the result of the attempt, and whether the job is
aborted. -/
def rerouteJob (attempt : Attempt) : Routed Pbse × Bool :=
  let routed := jobRoute job attempt
  (routed, decide (routed.code = .routerej ∨ routed.code = .routeexpd))

/-- What the outcome of sending the job tells about its destination. -/
def Locution.answer : Locution → Answer
  | .success => .accepted
  | .fail => .rejected
  | _ => .retry

variable (status : Locution) (newstate : JobState)

/-- The job when `finish_routing_processing` tries to route it again; `newstate`
is the state `svr_evaljobstate` finds. -/
def finishedJob : RouteJob :=
  if status = .fail then
    { addDest job with jiState := newstate }
  else
    { job with jiState := newstate }

/-- `finish_routing_processing`: the result of the attempt it makes, and
whether the job is purged or aborted. -/
def finishRoutingProcessing (attempt : Attempt) : Routed Pbse × Bool :=
  let answered := [(job.jiDestin, status.answer)]
  if status = .success then
    (⟨.none, job, answered⟩, true)
  else if status = .fail ∧ job.aborting then
    (⟨.none, { job with jiState := .queued }, answered⟩, false)
  else
    let routed := jobRoute (finishedJob job status newstate) attempt
    ({ routed with asked := answered ++ routed.asked }, decide (routed.code ≠ .none))

end

/-! ## Runs of routing attempts -/

/-- A job on its way, with the answers it has got so far. -/
structure Routing where
  job : RouteJob
  log : List (String × Answer)
  gone : Bool
  deriving DecidableEq, Repr

/-- The job before any attempt. -/
def Routing.start (job : RouteJob) : Routing :=
  ⟨job, [], false⟩

/-- What can happen to the job: an attempt from the retry loop, or the end of
a deferred move. -/
inductive RouteEvent where
  | reroute (attempt : Attempt)
  | finish (status : Locution) (newstate : JobState) (attempt : Attempt)

/-- The attempt an event makes. -/
def RouteEvent.attempt : RouteEvent → Attempt
  | .reroute attempt => attempt
  | .finish _ _ attempt => attempt

/-- What an event does.  A deferred move ends only for a job in transit. -/
def routeOutcome (routing : Routing) : RouteEvent → Routed Pbse × Bool
  | .reroute attempt =>
    if routing.gone then (⟨.none, routing.job, []⟩, true)
    else rerouteJob routing.job attempt
  | .finish status newstate attempt =>
    if routing.gone then (⟨.none, routing.job, []⟩, true)
    else if routing.job.jiState = .transit then
      finishRoutingProcessing routing.job status newstate attempt
    else (⟨.none, routing.job, []⟩, false)

/-- The job and its log after an event. -/
def routeStep (routing : Routing) (event : RouteEvent) : Routing :=
  ⟨(routeOutcome routing event).1.job, routing.log ++ (routeOutcome routing event).1.asked,
    (routeOutcome routing event).2⟩

/-- The job as it is when the event starts going through the destinations. -/
def RouteEvent.routedJob (job : RouteJob) : RouteEvent → RouteJob
  | .reroute _ => job
  | .finish status newstate _ => finishedJob job status newstate

/-- The event calls `job_route`. -/
def RouteEvent.attempts (routing : Routing) : RouteEvent → Bool
  | .reroute _ => !routing.gone
  | .finish status _ _ =>
    !routing.gone && decide (routing.job.jiState = .transit) && decide (status ≠ .success) &&
      !(decide (status = .fail) && routing.job.aborting)

/-- No destination that has not rejected the job is passed over if the event goes
through the destinations: every name fits the job's destination field, and those
in front of `ji_lastdest` are already marked as bad. -/
def Unskipped (routing : Routing) (event : RouteEvent) : Prop :=
  event.attempts routing = true →
    entersRouter (event.routedJob routing.job) event.attempt = true →
    (∀ destination ∈ event.attempt.destinations, destination.length < pbsMaxroutedest) ∧
      ∀ destination ∈ event.attempt.destinations.take routing.job.jiLastdest,
        isBadDest (event.routedJob routing.job) destination = true

instance (routing : Routing) (event : RouteEvent) : Decidable (Unskipped routing event) :=
  inferInstanceAs (Decidable (_ → _ → _))

/-- Every destination answers in one of the four ways of `svr_movejob`. -/
def Documented (event : RouteEvent) : Prop :=
  ∀ i < event.attempt.destinations.length,
    event.attempt.answers i ≠ .failed ∧ event.attempt.answers i ≠ .unsent

instance (event : RouteEvent) : Decidable (Documented event) :=
  inferInstanceAs (Decidable (∀ i < _, _))

/-! ### The loop over the destinations -/

variable {job : RouteJob} {destination : String}

theorem isBadDest_iff : isBadDest job destination = true ↔ destination ∈ job.jiRejectdest := by
  simp [isBadDest]

/-- What a move to a destination whose name fits can do. -/
theorem svrMovejob_cases (fits : destination.length < pbsMaxroutedest)
    (job : RouteJob) (answer : Answer) :
    (svrMovejob job destination answer =
        ⟨.permFailure, job.setDestin destination, [(destination, .rejected)]⟩) ∨
      (svrMovejob job destination answer =
        ⟨.retry, job.setDestin destination, [(destination, .retry)]⟩) ∨
      (∃ job' asked, svrMovejob job destination answer = ⟨.success, job', asked⟩ ∧
        job'.jiRejectdest = job.jiRejectdest) ∨
      (answer = .failed ∨ answer = .unsent) ∧
        ∃ job' asked, svrMovejob job destination answer = ⟨.other, job', asked⟩ ∧
          job'.jiRejectdest = job.jiRejectdest := by
  unfold svrMovejob
  rw [if_neg (Nat.not_le_of_lt fits)]
  by_cases same : job.jiQueue = (job.setDestin destination).jiDestin
  · simp [RouteJob.setDestin] at same
    simp [RouteJob.setDestin, same]
  · cases answer <;> simp_all [RouteJob.setDestin]

variable {log : List (String × Answer)} {remaining : List String} {event : RouteEvent}
  {routing : Routing} {attempt : Attempt}

/-- Only destinations that have rejected the job were marked. -/
def Marks (before : RouteJob) (asked : List (String × Answer)) (after : RouteJob) : Prop :=
  ∃ added, after.jiRejectdest = before.jiRejectdest ++ added ∧
    ∀ destination ∈ added, (destination, Answer.rejected) ∈ asked

theorem Marks.of_same {after : RouteJob} (same : after.jiRejectdest = job.jiRejectdest) :
    Marks job log after :=
  ⟨[], by rw [same, append_nil], forall_mem_nil _⟩

theorem Marks.trans {before after : RouteJob} {more : List (String × Answer)}
    (first : Marks before log job) (second : Marks job more after) :
    Marks before (log ++ more) after := by
  obtain ⟨added, same, rejected⟩ := first
  obtain ⟨later, same', rejected'⟩ := second
  refine ⟨added ++ later, by rw [same', same, append_assoc], forall_mem_append.mpr ⟨?_, ?_⟩⟩
  · exact fun destination mem => mem_append_left _ (rejected destination mem)
  · exact fun destination mem => mem_append_right _ (rejected' destination mem)

theorem Marks.mem {after : RouteJob} (marks : Marks job log after)
    (bad : destination ∈ job.jiRejectdest) : destination ∈ after.jiRejectdest := by
  obtain ⟨added, same, -⟩ := marks
  rw [same]
  exact mem_append_left _ bad

theorem marks_addDest (job : RouteJob) : Marks job [(job.jiDestin, .rejected)] (addDest job) :=
  ⟨[job.jiDestin], rfl, forall_mem_singleton.mpr (mem_singleton_self _)⟩

/-- The loop goes on behind its next destination, which is marked or asked for a retry if it gave
one of the four answers, or the loop ends. -/
theorem routeFrom_cons_cases (answers : Nat → Answer) (retryTime : Int)
    (fits : destination.length < pbsMaxroutedest) (rest : List String) (job : RouteJob) :
    (∃ next asked, routeFrom answers retryTime (destination :: rest) job =
          { routeFrom answers retryTime rest next with
            asked := asked ++ (routeFrom answers retryTime rest next).asked } ∧
        Marks job asked next ∧
        (¬(answers job.jiLastdest = .failed ∨ answers job.jiLastdest = .unsent) →
          next.jiLastdest = job.jiLastdest + 1 ∧
            (destination ∈ next.jiRejectdest ∧ next.jiRetryok = job.jiRetryok ∨
              next.jiRetryok = true))) ∨
      ∃ job' asked, routeFrom answers retryTime (destination :: rest) job = ⟨.none, job', asked⟩ ∧
        job'.jiRejectdest = job.jiRejectdest := by
  rw [routeFrom]
  by_cases bad : isBadDest job destination = true
  · rw [if_pos bad]
    exact .inl ⟨job.advance, [], rfl, .of_same rfl,
      fun _ => ⟨rfl, .inl ⟨isBadDest_iff.mp bad, rfl⟩⟩⟩
  · rw [if_neg bad]
    rcases svrMovejob_cases fits job.advance (answers job.jiLastdest) with
      moved | moved | ⟨job', asked, moved, same⟩ | ⟨broken, job', asked, moved, same⟩
    · rw [moved]
      exact .inl ⟨_, _, rfl, marks_addDest (job.advance.setDestin destination),
        fun _ => ⟨rfl, .inl ⟨mem_append_right _ (mem_singleton_self _), rfl⟩⟩⟩
    · rw [moved]
      exact .inl ⟨_, _, rfl, .of_same rfl, fun _ => ⟨rfl, .inr rfl⟩⟩
    · rw [moved]
      exact .inr ⟨_, _, rfl, same⟩
    · rw [moved]
      exact .inl ⟨_, _, rfl, .of_same same, fun documented => absurd broken documented⟩

/-- Going through the destinations marks only those that reject the job. -/
theorem routeFrom_marks (answers : Nat → Answer) (retryTime : Int)
    (fits : ∀ destination ∈ remaining, destination.length < pbsMaxroutedest) (job : RouteJob) :
    Marks job (routeFrom answers retryTime remaining job).asked
      (routeFrom answers retryTime remaining job).job := by
  induction remaining generalizing job with
  | nil =>
    unfold routeFrom
    split <;> exact .of_same rfl
  | cons destination rest ih =>
    rw [forall_mem_cons] at fits
    rcases routeFrom_cons_cases answers retryTime fits.1 rest job with
      ⟨next, asked, routed, marks, -⟩ | ⟨job', asked, routed, same⟩
    · rw [routed]
      exact marks.trans (ih fits.2 next)
    · rw [routed]
      exact .of_same same

/-- When no destination is left and none asked for a retry, every one of those
gone through is marked as bad. -/
theorem routeFrom_routerej {answers : Nat → Answer} {retryTime : Int}
    (fits : ∀ destination ∈ remaining, destination.length < pbsMaxroutedest) (job : RouteJob)
    (documented : ∀ i, i < job.jiLastdest + remaining.length →
      answers i ≠ .failed ∧ answers i ≠ .unsent)
    (rejected : (routeFrom answers retryTime remaining job).code = .routerej) :
    job.jiRetryok = false ∧
      ∀ destination ∈ remaining,
        destination ∈ (routeFrom answers retryTime remaining job).job.jiRejectdest := by
  induction remaining generalizing job with
  | nil =>
    constructor
    · cases retry : job.jiRetryok with
      | false => rfl
      | true => simp [routeFrom, retry] at rejected
    · simp
  | cons destination rest ih =>
    rw [forall_mem_cons] at fits ⊢
    rcases routeFrom_cons_cases answers retryTime fits.1 rest job with
      ⟨next, asked, routed, -, offered⟩ | ⟨job', asked, routed, -⟩
    · rw [routed] at rejected ⊢
      obtain ⟨lastdest, offered⟩ := offered (not_or.mpr (documented job.jiLastdest (by simp)))
      obtain ⟨noRetry, marks⟩ := ih fits.2 next
        (fun i lt => documented i (by rw [length_cons]; omega)) rejected
      rcases offered with ⟨bad, retry⟩ | retry
      · exact ⟨retry ▸ noRetry, (routeFrom_marks answers retryTime fits.2 next).mem bad, marks⟩
      · rw [retry] at noRetry
        contradiction
    · rw [routed] at rejected
      simp at rejected

/-! ### One attempt -/

/-- An attempt leaves the job alone, without rejecting it, or goes through the
destinations of its queue. -/
theorem jobRoute_cases (job : RouteJob) (attempt : Attempt) :
    (∃ code, code ≠ .routerej ∧ jobRoute job attempt = ⟨code, job, []⟩) ∨
      ∃ queue retryTime, entersRouter job attempt = true ∧ attempt.queue = some queue ∧
        jobRoute job attempt = defaultRouter job queue retryTime attempt.answers := by
  unfold jobRoute
  split
  · exact .inl ⟨_, by simp, rfl⟩
  · rename_i queue found
    split
    · exact .inl ⟨_, by simp, rfl⟩
    · next bad state =>
      dsimp only
      split_ifs with stopped full expired isBad
      · exact .inl ⟨_, by simp, rfl⟩
      · exact .inl ⟨_, by simp, rfl⟩
      · exact .inl ⟨_, by simp, rfl⟩
      · exact .inl ⟨_, by simp, rfl⟩
      · refine .inr ⟨queue, _, ?_, found, rfl⟩
        rw [Bool.not_eq_true] at isBad full
        rw [Bool.not_eq_false] at stopped
        simp only [entersRouter, found, Option.any_some, state, isBad, full, stopped,
          decide_eq_false expired]
        rfl

/-- Marks are made only by rejections, if every name that is tried fits. -/
theorem jobRoute_marks (fits : entersRouter job attempt = true →
      ∀ destination ∈ attempt.destinations, destination.length < pbsMaxroutedest) :
    Marks job (jobRoute job attempt).asked (jobRoute job attempt).job := by
  rcases jobRoute_cases job attempt with
    ⟨code, -, routed⟩ | ⟨queue, retryTime, enters, queueEq, routed⟩
  · rw [routed]
    exact .of_same rfl
  · rw [routed]
    refine routeFrom_marks _ _ ?_ (job.setRetryok false)
    intro destination mem
    apply fits enters
    simp only [Attempt.destinations, queueEq, Option.map_some, Option.getD_some]
    exact mem_of_mem_drop mem

/-- A rejected job has a mark for every destination, if those in front of
`ji_lastdest` had one. -/
theorem jobRoute_routerej (documented : ∀ i < attempt.destinations.length,
      attempt.answers i ≠ .failed ∧ attempt.answers i ≠ .unsent)
    (unskipped : entersRouter job attempt = true →
      (∀ destination ∈ attempt.destinations, destination.length < pbsMaxroutedest) ∧
        ∀ destination ∈ attempt.destinations.take job.jiLastdest,
          isBadDest job destination = true)
    (rejected : (jobRoute job attempt).code = .routerej) :
    ∀ destination ∈ attempt.destinations,
      destination ∈ (jobRoute job attempt).job.jiRejectdest := by
  rcases jobRoute_cases job attempt with
    ⟨code, ne, routed⟩ | ⟨queue, retryTime, enters, queueEq, routed⟩
  · rw [routed] at rejected
    exact absurd rejected ne
  · obtain ⟨fits, skipped⟩ := unskipped enters
    have destinations : attempt.destinations = queue.destinations := by
      simp [Attempt.destinations, queueEq]
    rw [destinations] at fits documented skipped ⊢
    rw [routed] at rejected ⊢
    have dropFits : ∀ destination ∈ queue.destinations.drop job.jiLastdest,
        destination.length < pbsMaxroutedest :=
      fun destination mem => fits destination (mem_of_mem_drop mem)
    intro destination mem
    rw [← take_append_drop job.jiLastdest queue.destinations, mem_append] at mem
    rcases mem with before | after
    · exact (routeFrom_marks attempt.answers retryTime dropFits (job.setRetryok false)).mem
        (isBadDest_iff.mp (skipped destination before))
    · by_cases within : job.jiLastdest ≤ queue.destinations.length
      · refine (routeFrom_routerej dropFits _ ?_ rejected).2 destination after
        intro i lt
        apply documented i
        simp only [RouteJob.setRetryok, length_drop] at lt
        omega
      · rw [drop_eq_nil_of_le (by omega)] at after
        simp at after

/-! ### One event -/

theorem marks_finishedJob (job : RouteJob) (status : Locution) (newstate : JobState) :
    Marks job [(job.jiDestin, status.answer)] (finishedJob job status newstate) := by
  by_cases fail : status = .fail
  · subst fail
    exact marks_addDest job
  · apply Marks.of_same
    simp [finishedJob, fail]

/-- An event makes an attempt with the job it prepares, or none at all. -/
theorem routeOutcome_cases (routing : Routing) (event : RouteEvent) :
    ((routeOutcome routing event).1.code ≠ .routerej ∧
        (routeOutcome routing event).1.job.jiRejectdest = routing.job.jiRejectdest) ∨
      ∃ asked, event.attempts routing = true ∧
        Marks routing.job asked (event.routedJob routing.job) ∧
        (event.routedJob routing.job).jiLastdest = routing.job.jiLastdest ∧
        (routeOutcome routing event).1 =
          { jobRoute (event.routedJob routing.job) event.attempt with
            asked := asked ++ (jobRoute (event.routedJob routing.job) event.attempt).asked } := by
  by_cases gone : routing.gone = true
  · cases event <;> simp [routeOutcome, gone]
  cases event with
  | reroute attempt =>
    refine .inr ⟨[], by simp [RouteEvent.attempts, gone], .of_same rfl, rfl, ?_⟩
    simp [routeOutcome, gone, rerouteJob, RouteEvent.attempt, RouteEvent.routedJob]
  | finish status newstate attempt =>
    by_cases transit : routing.job.jiState = .transit
    · by_cases success : status = .success
      · simp [routeOutcome, gone, transit, finishRoutingProcessing, success]
      · by_cases aborting : status = .fail ∧ routing.job.aborting = true
        · simp [routeOutcome, gone, transit, finishRoutingProcessing, aborting]
        · refine .inr ⟨[(routing.job.jiDestin, status.answer)], ?_, ?_, ?_, ?_⟩
          · simpa [RouteEvent.attempts, gone, transit, success, imp_iff_not_or] using aborting
          · exact marks_finishedJob routing.job status newstate
          · dsimp only [RouteEvent.routedJob, finishedJob]
            split <;> rfl
          · simp [routeOutcome, gone, transit, finishRoutingProcessing, success, aborting,
              RouteEvent.attempt, RouteEvent.routedJob]
    · simp [routeOutcome, gone, transit]

theorem marks_routeStep (unskipped : Unskipped routing event) :
    Marks routing.job (routeOutcome routing event).1.asked (routeStep routing event).job := by
  unfold routeStep
  rcases routeOutcome_cases routing event with ⟨-, same⟩ | ⟨asked, attempts, marks, -, routed⟩
  · exact .of_same same
  · rw [routed]
    exact marks.trans (jobRoute_marks fun enters => (unskipped attempts enters).1)

/-- An event that passes nothing over rejects the job only when every
destination is marked. -/
theorem routeOutcome_routerej (unskipped : Unskipped routing event) (documented : Documented event)
    (rejected : (routeOutcome routing event).1.code = .routerej) :
    ∀ destination ∈ event.attempt.destinations,
      destination ∈ (routeStep routing event).job.jiRejectdest := by
  unfold routeStep
  rcases routeOutcome_cases routing event with ⟨ne, -⟩ | ⟨asked, attempts, -, lastdest, routed⟩
  · exact absurd rejected ne
  · rw [routed] at rejected ⊢
    exact jobRoute_routerej documented (lastdest ▸ unskipped attempts) rejected

/-! ## Rejection -/

/-- **A job is rejected only by every destination**, in every run in which no
destination is passed over: when an event of the run makes `default_router`
return `PBSE_ROUTEREJ`, each destination of the list has given the job a
permanent rejection. -/
theorem routerej_only_if_rejected (job : RouteJob) (unmarked : job.jiRejectdest = [])
    (events : List RouteEvent) (event : RouteEvent)
    (unskipped : Admissible routeStep Unskipped (.start job) events)
    (unskippedLast : Unskipped (run routeStep (.start job) events) event)
    (documented : Documented event)
    (rejected : (routeOutcome (run routeStep (.start job) events) event).1.code = .routerej) :
    ∀ destination ∈ event.attempt.destinations,
      (destination, Answer.rejected) ∈
        (routeStep (run routeStep (.start job) events) event).log := by
  have marks : Marks job (run routeStep (.start job) events).log
      (run routeStep (.start job) events).job := by
    refine invariant (fun routing => Marks job routing.log routing.job) (.of_same rfl) ?_ unskipped
    exact fun routing event marks unskipped => marks.trans (marks_routeStep unskipped)
  intro destination mem
  have bad := routeOutcome_routerej unskippedLast documented rejected destination mem
  obtain ⟨added, same, answered⟩ := marks.trans (marks_routeStep unskippedLast)
  rw [same, unmarked] at bad
  exact answered destination bad

/-- A job that has just been put in the queue `route`. -/
def newJob : RouteJob :=
  ⟨.queued, false, "route", "", 0, false, [], 0, 0⟩

/-- A started routing queue with the given destinations. -/
def routeQueue (destinations : List String) : RouteQueue :=
  ⟨some destinations, false, false, false, true, none, 0, none, none⟩

/-- The first destination rejects the job at once and the second after it was
sent there. -/
theorem routerej_only_if_rejected_twice :
    let attempt : Attempt := ⟨some (routeQueue ["a", "b@x"]), 1,
      fun i => if i = 0 then .rejected else .deferred⟩
    let last : RouteEvent :=
      .finish .fail .queued ⟨some (routeQueue ["a", "b@x"]), 2, fun _ => .retry⟩
    let log := (routeStep (run routeStep (.start newJob) [.reroute attempt]) last).log
    ("a", Answer.rejected) ∈ log ∧ ("b@x", Answer.rejected) ∈ log := by
  intro attempt last log
  have all : ∀ destination ∈ ["a", "b@x"], (destination, Answer.rejected) ∈ log :=
    routerej_only_if_rejected newJob rfl [.reroute attempt] last (by decide +kernel)
      (by decide +kernel) (by decide +kernel) (by decide +kernel)
  exact ⟨all "a" (by decide), all "b@x" (by decide)⟩

/-- The only destination cannot be reached for the moment.  The next attempt
starts behind it and, finding nothing to retry, rejects the job. -/
theorem routerej_deferred_requeue :
    ¬ ∀ (job : RouteJob) (events : List RouteEvent) (event : RouteEvent),
      job.jiRejectdest = [] → job.jiLastdest = 0 →
      (∀ e ∈ events ++ [event], Documented e ∧
        ∀ destination ∈ e.attempt.destinations, destination.length < pbsMaxroutedest) →
      (routeOutcome (run routeStep (.start job) events) event).1.code = .routerej →
      ∀ destination ∈ event.attempt.destinations,
        (destination, Answer.rejected) ∈
          (routeStep (run routeStep (.start job) events) event).log := by
  intro claimed
  have rejected := claimed newJob
    [.reroute ⟨some (routeQueue ["b@x"]), 1, fun _ => .deferred⟩]
    (.finish .requeue .queued ⟨some (routeQueue ["b@x"]), 2, fun _ => .accepted⟩)
    rfl rfl (by decide +kernel) (by decide +kernel) "b@x" (by decide +kernel)
  revert rejected
  decide +kernel

end Torque.Server.Route
