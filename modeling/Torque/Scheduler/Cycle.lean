import Torque.Scheduler.Check
import Torque.Transition.Run

/-!
# A scheduling cycle

`scheduling_cycle` asks `next_job` for one job after the other and runs those that
`is_ok_to_run_job` lets pass.  With `strict_fifo` a job that is refused holds up the jobs behind
it in its queue: `update_jobs_cant_run` marks them.

`next_job` remembers in static variables where it stands.  One round of the main loop is one
step; what the server answers in it is the event.
-/

namespace Torque.Scheduler

open Torque.Numa Torque.Transition Function

variable {F : Type}

/-! ## `next_job` -/

/-- The static variables of `next_job`.  An entry of `cjobs` is missing once the jobs of the queue
are exhausted. -/
structure Iterator where
  cjobs : List (Option (List JobRef))
  lastQueue : Int
  lastJob : Int
  deriving DecidableEq

/-- The value that `extract_fairshare` compares. -/
def share [Floating F] (sinfo : ServerInfo F) (job : JobRef) : F :=
  let ginfo := sinfo.groupInfo (sinfo.jobInfo job).ginfo
  Floating.div ginfo.percentage (Floating.ofInt ginfo.tempUsage)

/-- The body of the loop of `extract_fairshare`, on the best job and its value. -/
def fairer [Floating F] (sinfo : ServerInfo F) (best : Option JobRef × F) (job : JobRef) :
    Option JobRef × F :=
  let jinfo := sinfo.jobInfo job
  let curValue := share sinfo job
  if Floating.lt best.2 curValue ∧ jinfo.isRunning = false ∧ jinfo.canNotRun = false then
    (some job, curValue)
  else best

/-- `extract_fairshare`: the first job with the largest share for its usage. -/
def extractFairshare [Floating F] (sinfo : ServerInfo F) (jobs : List JobRef) : Option JobRef :=
  (jobs.foldl (fairer sinfo) (none, Floating.ofInt (-1))).1

/-- The next queue, and behind the last queue the next position. -/
def Iterator.advance (iterator : Iterator) (numQueues : Nat) : Iterator :=
  if iterator.lastQueue = numQueues - 1 then
    { iterator with lastQueue := 0, lastJob := iterator.lastJob + 1 }
  else { iterator with lastQueue := iterator.lastQueue + 1 }

/-- The loop of the round robin, which goes over all queues at most once. -/
def roundRobinLoop [Floating F] (policy : Policy) (sinfo : ServerInfo F) :
    Nat → Iterator → Iterator × Option JobRef
  | 0, iterator => (iterator, none)
  | rounds + 1, iterator =>
    let iterator := iterator.advance sinfo.queues.length
    match iterator.cjobs.getD iterator.lastQueue.toNat none with
    | none => roundRobinLoop policy sinfo rounds iterator
    | some jobs =>
      match jobs[iterator.lastJob.toNat]? with
      | none =>
        let exhausted := iterator.cjobs.set iterator.lastQueue.toNat none
        roundRobinLoop policy sinfo rounds { iterator with cjobs := exhausted }
      | some job =>
        let rjob :=
          if policy.fairShare then extractFairshare sinfo jobs
          else if (sinfo.jobInfo job).canNotRun = false then some job
          else none
        match rjob with
        | none => roundRobinLoop policy sinfo rounds iterator
        | some rjob => (iterator, some rjob)

/-- The first job from a position on that is eligible, and where it stands. -/
def nextEligible (eligible : JobInfo F → Bool) (sinfo : ServerInfo F) :
    List JobRef → Int → Int × Option JobRef
  | [], position => (position, none)
  | job :: jobs, position =>
    if eligible (sinfo.jobInfo job) then (position, some job)
    else nextEligible eligible sinfo jobs (position + 1)

/-- The loop that goes from queue to queue, for `by_queue`: the queue and the position in it. -/
def byQueueLoop (sinfo : ServerInfo F) : List QueueRef → Int → Int → Int × Int × Option QueueRef
  | [], lastQueue, lastJob => (lastQueue, lastJob, none)
  | queue :: queues, lastQueue, lastJob =>
    match nextEligible (!·.canNotRun) sinfo
        ((sinfo.queueInfo queue).jobs.drop lastJob.toNat) lastJob with
    | (position, some _) => (lastQueue, position, some queue)
    | (_, none) => byQueueLoop sinfo queues (lastQueue + 1) 0

/-- `next_job` when the cycle begins. -/
def nextJobInit (policy : Policy) (sinfo : ServerInfo F) : Iterator :=
  if policy.roundRobin then
    ⟨sinfo.queues.map fun queue => some (sinfo.queueInfo queue).jobs, -1, 0⟩
  else ⟨[], 0, -1⟩

/-- `next_job` within the cycle. -/
def nextJob [Floating F] (policy : Policy) (sinfo : ServerInfo F) (iterator : Iterator) :
    Iterator × Option JobRef :=
  if policy.roundRobin then roundRobinLoop policy sinfo sinfo.queues.length iterator
  else if policy.strictFifo then
    let lastJob := iterator.lastJob + 1
    let (position, rjob) :=
      nextEligible (·.isQueued) sinfo (sinfo.jobs.drop lastJob.toNat) lastJob
    ({ iterator with lastJob := position }, rjob)
  else if policy.byQueue then
    let (lastQueue, lastJob, queue) := byQueueLoop sinfo
      (sinfo.queues.drop iterator.lastQueue.toNat) iterator.lastQueue (iterator.lastJob + 1)
    let rjob := queue.bind fun queue =>
      if policy.fairShare then extractFairshare sinfo (sinfo.queueInfo queue).jobs
      else (sinfo.queueInfo queue).jobs[lastJob.toNat]?
    ({ iterator with lastQueue := lastQueue, lastJob := lastJob }, rjob)
  else if policy.fairShare then (iterator, extractFairshare sinfo sinfo.jobs)
  else
    let lastJob := iterator.lastJob + 1
    let (position, rjob) :=
      nextEligible (!·.canNotRun) sinfo (sinfo.jobs.drop lastJob.toNat) lastJob
    ({ iterator with lastJob := position }, rjob)

/-! ## What a round changes -/

/-- What a round does to the record of a job. -/
def ServerInfo.putJob (sinfo : ServerInfo F) (job : JobRef) (jinfo : JobInfo F) : ServerInfo F :=
  { sinfo with jobInfo := update sinfo.jobInfo job jinfo }

/-- `can_not_run = 1`. -/
def ServerInfo.markCantRun (sinfo : ServerInfo F) (job : JobRef) : ServerInfo F :=
  sinfo.putJob job { sinfo.jobInfo job with canNotRun := true }

/-- `START_BEFORE_JOB`, `START_WITH_JOB`, `START_AFTER_JOB`. -/
inductive StartWhere where
  | beforeJob
  | withJob
  | afterJob
  deriving DecidableEq

section

variable (jobs : List JobRef) (start : Option JobRef) (startWhere : StartWhere)

/-- The part of the array that `update_jobs_cant_run` goes over. -/
def cantRunFrom : List JobRef :=
  let first := start.elim 0 jobs.idxOf
  if first < jobs.length then
    match startWhere with
    | .beforeJob => jobs.drop (first - 1)
    | .withJob => jobs.drop first
    | .afterJob => jobs.drop (first + 1)
  else []

/-- `update_jobs_cant_run`. -/
def updateJobsCantRun (sinfo : ServerInfo F) : ServerInfo F :=
  (cantRunFrom jobs start startWhere).foldl ServerInfo.markCantRun sinfo

end

/-- What is requested of a resource becomes assigned. -/
def assignResource (res : List Resource) (req : ResourceReq) : List Resource :=
  match res.findIdx? (·.name = req.name) with
  | none => res
  | some index => res.modify index fun r => { r with assigned := r.assigned + req.amount }

variable (resreq : List ResourceReq)

/-- All that a job requests becomes assigned. -/
def assignResources (res : List Resource) : List Resource :=
  resreq.foldl assignResource res

/-- The counters when a job is run. -/
def StateCount.onRun (sc : StateCount) : StateCount :=
  ⟨sc.running + 1, sc.queued - 1⟩

section

variable (job : JobRef) (sinfo : ServerInfo F)

/-- `update_server_on_run`. -/
def updateServerOnRun : ServerInfo F :=
  { sinfo with
    sc := sinfo.sc.onRun
    res := assignResources (sinfo.jobInfo job).resreq sinfo.res }

/-- `update_queue_on_run`. -/
def updateQueueOnRun : ServerInfo F :=
  let qinfo := sinfo.queueOf job
  { sinfo with
    queueInfo := update sinfo.queueInfo (sinfo.jobInfo job).queue
      { qinfo with
        sc := qinfo.sc.onRun
        qres := assignResources (sinfo.jobInfo job).resreq qinfo.qres } }

/-- `update_job_on_run`. -/
def updateJobOnRun : ServerInfo F :=
  sinfo.putJob job { sinfo.jobInfo job with isQueued := false, isRunning := true }

/-- `calculate_usage_value`. -/
def calculateUsageValue : Int :=
  ((findResourceReq resreq .cput).map (·.amount)).getD 0

/-- `update_usage_on_run`. -/
def updateUsageOnRun : ServerInfo F :=
  let jinfo := sinfo.jobInfo job
  let ginfo := sinfo.groupInfo jinfo.ginfo
  let tempUsage := ginfo.tempUsage + calculateUsageValue jinfo.resreq
  { sinfo with
    groupInfo := update sinfo.groupInfo jinfo.ginfo { ginfo with tempUsage := tempUsage } }

/-- The load of the node that was chosen grows by the processors of the job. -/
def inflateLoad [Floating F] (job : JobRef) (bestNode : Nat) (sinfo : ServerInfo F) :
    ServerInfo F :=
  let load := Floating.ofInt (ncpus (sinfo.jobInfo job).resreq)
  { sinfo with
    timesharingNodes := sinfo.timesharingNodes.map fun nodes =>
      nodes.modify bestNode fun node => { node with loadave := Floating.add node.loadave load } }

/-- The arrays of running jobs of the server and of the queue are built anew. -/
def refreshRunning : ServerInfo F :=
  let running := fun jobs : List JobRef => jobs.filter fun job => (sinfo.jobInfo job).isRunning
  let qinfo := sinfo.queueOf job
  { sinfo with
    runningJobs := running sinfo.jobs
    queueInfo := update sinfo.queueInfo (sinfo.jobInfo job).queue
      { qinfo with runningJobs := running qinfo.jobs } }

end

/-- What the server answers in one round: to `pbs_rescquery` and to `pbs_runjob`.  The node that
`find_best_node` chooses for load balancing is taken as given. -/
structure Answers where
  query : RescQuery
  runjob : Int
  bestNode : Option Nat
  deriving DecidableEq

section

variable [Floating F] (policy : Policy)

/-- `run_update_job` after the server has started the job. -/
def updateOnRun (bestNode : Option Nat) (job : JobRef) (sinfo : ServerInfo F) : ServerInfo F :=
  let loaded :=
    if policy.loadBalancing then bestNode.elim sinfo fun node => inflateLoad job node sinfo
    else sinfo
  let counted := updateJobOnRun job (updateQueueOnRun job (updateServerOnRun job loaded))
  let charged := if policy.fairShare then updateUsageOnRun job counted else counted
  refreshRunning job charged

/-- What became of a job that was considered. -/
inductive Outcome where
  | started
  /-- `is_ok_to_run_job` -/
  | refused (code : FailCode)
  /-- `pbs_runjob` -/
  | runFailed
  deriving DecidableEq

/-- A job that was considered. -/
structure Considered where
  job : JobRef
  outcome : Outcome
  deriving DecidableEq

/-- The server with the mark that `check_nodes` may set. -/
def ServerInfo.flagged (sinfo : ServerInfo F) (job : JobRef) (canNeverRun : Bool) :
    ServerInfo F :=
  sinfo.putJob job { sinfo.jobInfo job with canNeverRun := canNeverRun }

/-- The body of the main loop: what becomes of the job, and of what the scheduler knows. -/
def considerJob (answers : Answers) (sinfo : ServerInfo F) (job : JobRef) :
    Outcome × ServerInfo F :=
  let (code, canNeverRun) := isOkToRunJob policy answers.query sinfo job
  let checked := sinfo.flagged job canNeverRun
  match code with
  | none =>
    if answers.runjob = 0 then (.started, updateOnRun policy answers.bestNode job checked)
    else (.runFailed, checked)
  | some code =>
    let marked := checked.markCantRun job
    if code ≠ .notQueued ∧ policy.strictFifo = true then
      (.refused code, updateJobsCantRun (marked.queueOf job).jobs (some job) .afterJob marked)
    else (.refused code, marked)

/-- A cycle: what the scheduler knows, where `next_job` stands, whether the loop has been left, and
the jobs that were considered. -/
structure Cycle (F : Type) where
  sinfo : ServerInfo F
  iterator : Iterator
  ended : Bool
  considered : List Considered

/-- The cycle before the main loop. -/
def Cycle.start (policy : Policy) (sinfo : ServerInfo F) : Cycle F :=
  ⟨sinfo, nextJobInit policy sinfo, false, []⟩

/-- One round of the main loop of `scheduling_cycle`. -/
def Cycle.round (cycle : Cycle F) (answers : Answers) : Cycle F :=
  if cycle.ended then cycle
  else
    match nextJob policy cycle.sinfo cycle.iterator with
    | (iterator, none) => { cycle with iterator := iterator, ended := true }
    | (iterator, some job) =>
      let (outcome, sinfo) := considerJob policy answers cycle.sinfo job
      ⟨sinfo, iterator, false, cycle.considered ++ [⟨job, outcome⟩]⟩

end

/-! ## What a round leaves alone -/

/-- The loads of the nodes and the shares of the groups apart, a start does four things. -/
theorem updateOnRun_eq [Floating F] (policy : Policy) (bestNode : Option Nat) (job : JobRef)
    (sinfo : ServerInfo F) : ∃ nodes groups, updateOnRun policy bestNode job sinfo =
    refreshRunning job { updateJobOnRun job (updateQueueOnRun job (updateServerOnRun job
      { sinfo with timesharingNodes := nodes })) with groupInfo := groups } := by
  unfold updateOnRun
  cases policy.loadBalancing with
  | false => cases policy.fairShare <;> exact ⟨_, _, rfl⟩
  | true => cases policy.fairShare <;> cases bestNode <;> exact ⟨_, _, rfl⟩

theorem jobInfo_putJob (sinfo : ServerInfo F) (job : JobRef) (jinfo : JobInfo F) :
    (sinfo.putJob job jinfo).jobInfo job = jinfo :=
  update_self job _ _

theorem canNotRun_markCantRun (sinfo : ServerInfo F) (job : JobRef) :
    ((sinfo.markCantRun job).jobInfo job).canNotRun = true := by
  rw [ServerInfo.markCantRun, jobInfo_putJob]

/-- A field that a new record has as before. -/
theorem field_update {ι α β : Type} [DecidableEq ι] {records : ι → α} {i : ι} {record : α}
    (field : α → β) (same : field record = field (records i)) (j : ι) :
    field (update records i record j) = field (records j) := by
  by_cases here : j = i
  · rw [here, update_self, same]
  · rw [update_of_ne here]

/-- Only the marks of the record differ: one that is there stays, and one is new only where it may
be. -/
structure JobInfo.Marks (free : Prop) (jinfo jinfo' : JobInfo F) : Prop where
  rest : jinfo' = { jinfo with canNotRun := jinfo'.canNotRun, canNeverRun := jinfo'.canNeverRun }
  stays : jinfo.canNotRun = true → jinfo'.canNotRun = true
  fresh : jinfo'.canNotRun = true → jinfo.canNotRun = true ∨ free

theorem JobInfo.Marks.trans {free : Prop} {jinfo jinfo' jinfo'' : JobInfo F}
    (first : jinfo.Marks free jinfo') (second : jinfo'.Marks free jinfo'') :
    jinfo.Marks free jinfo'' where
  rest := by rw [second.rest, first.rest]
  stays marked := second.stays (first.stays marked)
  fresh marked := (second.fresh marked).elim first.fresh .inr

/-- Only marks of jobs differ. -/
structure ServerInfo.Marks (free : JobRef → Prop) (sinfo sinfo' : ServerInfo F) : Prop where
  rest : sinfo' = { sinfo with jobInfo := sinfo'.jobInfo }
  record : ∀ job, (sinfo.jobInfo job).Marks (free job) (sinfo'.jobInfo job)

namespace ServerInfo.Marks

variable {free : JobRef → Prop} {sinfo sinfo' sinfo'' : ServerInfo F}

theorem refl : sinfo.Marks free sinfo :=
  ⟨rfl, fun _ => ⟨rfl, id, .inl⟩⟩

theorem trans (first : sinfo.Marks free sinfo') (second : sinfo'.Marks free sinfo'') :
    sinfo.Marks free sinfo'' where
  rest := by rw [second.rest, first.rest]
  record job := (first.record job).trans (second.record job)

theorem putJob {job : JobRef} {jinfo : JobInfo F}
    (marks : (sinfo.jobInfo job).Marks (free job) jinfo) :
    sinfo.Marks free (sinfo.putJob job jinfo) := by
  refine ⟨rfl, fun other => ?_⟩
  change (sinfo.jobInfo other).Marks (free other) (update sinfo.jobInfo job jinfo other)
  by_cases same : other = job
  · rw [same, update_self]
    exact marks
  · rw [update_of_ne same]
    exact ⟨rfl, id, .inl⟩

theorem flagged (sinfo : ServerInfo F) (free : JobRef → Prop) (job : JobRef)
    (canNeverRun : Bool) : sinfo.Marks free (sinfo.flagged job canNeverRun) :=
  putJob ⟨rfl, id, .inl⟩

theorem markCantRun {job : JobRef} (may : free job) : sinfo.Marks free (sinfo.markCantRun job) :=
  putJob ⟨rfl, fun _ => rfl, fun _ => .inr may⟩

theorem foldl (may : ∀ job, free job) (sinfo : ServerInfo F) (jobs : List JobRef) :
    sinfo.Marks free (jobs.foldl ServerInfo.markCantRun sinfo) :=
  run_invariant (sinfo.Marks free) refl
    (fun _ job marks => marks.trans (markCantRun (may job))) jobs

end ServerInfo.Marks

theorem canNotRun_foldl {jobs : List JobRef} {job : JobRef} {sinfo : ServerInfo F}
    (mem : job ∈ jobs) :
    ((jobs.foldl ServerInfo.markCantRun sinfo).jobInfo job).canNotRun = true := by
  induction jobs generalizing sinfo with
  | nil => cases mem
  | cons first jobs ih =>
    rcases List.mem_cons.mp mem with rfl | later
    · have marks := ServerInfo.Marks.foldl (fun _ => trivial) (sinfo.markCantRun job) jobs
      exact (marks.record job).stays (canNotRun_markCantRun sinfo job)
    · exact ih later

/-- Jobs stay in their queues, in their order, and marks stay. -/
structure Keeps (sinfo sinfo' : ServerInfo F) : Prop where
  queues : sinfo'.queues = sinfo.queues
  order : sinfo'.jobs = sinfo.jobs
  queue : ∀ job, (sinfo'.jobInfo job).queue = (sinfo.jobInfo job).queue
  jobs : ∀ queue, (sinfo'.queueInfo queue).jobs = (sinfo.queueInfo queue).jobs
  marks : ∀ job, (sinfo.jobInfo job).canNotRun = true → (sinfo'.jobInfo job).canNotRun = true

namespace Keeps

variable {sinfo sinfo' sinfo'' : ServerInfo F} (job : JobRef)

theorem refl (sinfo : ServerInfo F) : Keeps sinfo sinfo :=
  ⟨rfl, rfl, fun _ => rfl, fun _ => rfl, fun _ marked => marked⟩

theorem trans (first : Keeps sinfo sinfo') (second : Keeps sinfo' sinfo'') : Keeps sinfo sinfo'' :=
  ⟨second.queues.trans first.queues, second.order.trans first.order,
    fun job => (second.queue job).trans (first.queue job),
    fun queue => (second.jobs queue).trans (first.jobs queue),
    fun job marked => second.marks job (first.marks job marked)⟩

theorem queueOf (keeps : Keeps sinfo sinfo') (job : JobRef) :
    (sinfo'.queueOf job).jobs = (sinfo.queueOf job).jobs := by
  unfold ServerInfo.queueOf
  rw [keeps.queue, keeps.jobs]

theorem of_marks {free : JobRef → Prop} (marks : sinfo.Marks free sinfo') :
    Keeps sinfo sinfo' where
  queues := by rw [marks.rest]
  order := by rw [marks.rest]
  queue job := by rw [(marks.record job).rest]
  jobs queue := by rw [marks.rest]
  marks job := (marks.record job).stays

theorem updateServerOnRun : Keeps sinfo (updateServerOnRun job sinfo) :=
  ⟨rfl, rfl, fun _ => rfl, fun _ => rfl, fun _ marked => marked⟩

theorem updateQueueOnRun : Keeps sinfo (updateQueueOnRun job sinfo) :=
  ⟨rfl, rfl, fun _ => rfl, field_update QueueInfo.jobs (by rfl), fun _ marked => marked⟩

theorem updateJobOnRun : Keeps sinfo (updateJobOnRun job sinfo) :=
  ⟨rfl, rfl, field_update JobInfo.queue (by rfl), fun _ => rfl,
    fun other marked => (field_update JobInfo.canNotRun (by rfl) other).trans marked⟩

theorem refreshRunning : Keeps sinfo (refreshRunning job sinfo) :=
  ⟨rfl, rfl, fun _ => rfl, field_update QueueInfo.jobs (by rfl), fun _ marked => marked⟩

theorem updateOnRun [Floating F] (policy : Policy) (bestNode : Option Nat) (job : JobRef) :
    Keeps sinfo (updateOnRun policy bestNode job sinfo) := by
  obtain ⟨nodes, groups, equal⟩ := updateOnRun_eq policy bestNode job sinfo
  have loaded : Keeps sinfo { sinfo with timesharingNodes := nodes } :=
    ⟨rfl, rfl, fun _ => rfl, fun _ => rfl, fun _ marked => marked⟩
  have counted := ((loaded.trans (updateServerOnRun job)).trans (updateQueueOnRun job)).trans
    (updateJobOnRun job)
  rw [equal]
  refine trans ?_ (refreshRunning job)
  exact ⟨counted.queues, counted.order, counted.queue, counted.jobs, counted.marks⟩

end Keeps

/-- What is shown for a start, for a failure of the server and for a refusal holds in every round.  A
refusal marks the job and, for the strict order, the jobs behind it. -/
theorem considerJob_induction [Floating F] {policy : Policy} {answers : Answers}
    {sinfo : ServerInfo F} {job : JobRef} {motive : Outcome → ServerInfo F → Prop}
    (started : ∀ canNeverRun, (isOkToRunJob policy answers.query sinfo job).1 = none →
      answers.runjob = 0 →
      motive .started (updateOnRun policy answers.bestNode job (sinfo.flagged job canNeverRun)))
    (failed : ∀ canNeverRun, (isOkToRunJob policy answers.query sinfo job).1 = none →
      answers.runjob ≠ 0 → motive .runFailed (sinfo.flagged job canNeverRun))
    (refused : ∀ code marked, (isOkToRunJob policy answers.query sinfo job).1 = some code →
      sinfo.Marks (fun other => other = job ∨ policy.strictFifo = true) marked →
      (marked.jobInfo job).canNotRun = true →
      (policy.strictFifo = true → ∀ other ∈ cantRunFrom (sinfo.queueOf job).jobs (some job)
        .afterJob, (marked.jobInfo other).canNotRun = true) → motive (.refused code) marked) :
    motive (considerJob policy answers sinfo job).1 (considerJob policy answers sinfo job).2 := by
  have queued := isOkToRunJob_ne_notQueued policy answers.query sinfo job
  unfold considerJob
  dsimp only
  cases ok : (isOkToRunJob policy answers.query sinfo job).1 with
  | none =>
    dsimp only
    split
    · next accepted => exact started _ ok accepted
    · next rejected => exact failed _ ok rejected
  | some code =>
    have marks := (ServerInfo.Marks.flagged sinfo (fun other => other = job ∨
      policy.strictFifo = true) job (isOkToRunJob policy answers.query sinfo job).2).trans
      (.markCantRun (.inl rfl))
    have own := canNotRun_markCantRun (sinfo.flagged job
      (isOkToRunJob policy answers.query sinfo job).2) job
    dsimp only
    split
    · next strict =>
      refine refused code _ ok (marks.trans (.foldl (fun _ => .inr strict.2) _ _))
        (((ServerInfo.Marks.foldl (fun _ => trivial) _ _).record job).stays own) ?_
      intro _ other behind
      apply canNotRun_foldl
      rw [← (Keeps.of_marks marks).queueOf] at behind
      exact behind
    · next lax =>
      refine refused code _ ok marks own fun strict => absurd ⟨?_, strict⟩ lax
      rintro rfl
      exact queued ok

/-- A round leaves the queues and the marks alone. -/
theorem keeps_considerJob [Floating F] (policy : Policy) (answers : Answers)
    (sinfo : ServerInfo F) (job : JobRef) :
    Keeps sinfo (considerJob policy answers sinfo job).2 := by
  refine considerJob_induction (motive := fun _ => Keeps sinfo) ?_ ?_ ?_
  · intro canNeverRun _ _
    exact (Keeps.of_marks (.flagged sinfo (fun _ => True) job canNeverRun)).trans
      (.updateOnRun policy answers.bestNode job)
  · intro canNeverRun _ _
    exact .of_marks (.flagged sinfo (fun _ => True) job canNeverRun)
  · exact fun _ _ _ marks _ _ => .of_marks marks

end Torque.Scheduler
