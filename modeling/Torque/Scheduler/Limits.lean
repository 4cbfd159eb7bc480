import Torque.Scheduler.Modes
import Torque.Scheduler.Resources
import Torque.Scheduler.StrictFifo

/-!
# A cycle stays within the limits

The server and each queue limit the number of jobs that run, in all, for each user and for each
group, and have resources of which no more may be assigned than is available.

`is_ok_to_run_job` tests counters, arrays of running jobs and assigned amounts.  All of these are
brought up to date when a job is started.  So no start breaks a limit, provided that what is left
of a resource survives the `int` of `check_avail_resources`.
-/

namespace Torque.Scheduler

open Torque.Numa Torque.Transition Torque.Structure Function List

variable {F : Type}

/-! ## What is limited -/

/-- What the limits are about, in the server and in a queue alike. -/
structure Area where
  maxRun : Int
  maxUserRun : Int
  maxGroupRun : Int
  sc : StateCount
  res : List Resource
  jobs : List JobRef
  runningJobs : List JobRef

/-- The server as an area. -/
def ServerInfo.area (sinfo : ServerInfo F) : Area :=
  ⟨sinfo.maxRun, sinfo.maxUserRun, sinfo.maxGroupRun, sinfo.sc, sinfo.res, sinfo.jobs,
    sinfo.runningJobs⟩

/-- A queue as an area. -/
def QueueInfo.area (qinfo : QueueInfo) : Area :=
  ⟨qinfo.maxRun, qinfo.maxUserRun, qinfo.maxGroupRun, qinfo.sc, qinfo.qres, qinfo.jobs,
    qinfo.runningJobs⟩

/-- The jobs that run. -/
def ServerInfo.running (sinfo : ServerInfo F) (jobs : List JobRef) : List JobRef :=
  jobs.filter fun job => (sinfo.jobInfo job).isRunning

/-- The limit is met, if there is one. -/
def Under (limit count : Int) : Prop :=
  limit = infinityVal ∨ count ≤ limit

/-- The counter and the array of running jobs are right. -/
structure Counted (sinfo : ServerInfo F) (area : Area) : Prop where
  array : area.runningJobs = sinfo.running area.jobs
  counter : area.sc.running = (sinfo.running area.jobs).length

/-- The limits are met. -/
structure Within (sinfo : ServerInfo F) (area : Area) : Prop where
  jobs : Under area.maxRun (sinfo.running area.jobs).length
  users : ∀ user, Under area.maxUserRun (countByUser sinfo (sinfo.running area.jobs) user)
  groups : ∀ group, Under area.maxGroupRun (countByGroup sinfo (sinfo.running area.jobs) group)
  stocked : Stocked area.res

/-- The counters are right and the limits are met. -/
structure InBounds (sinfo : ServerInfo F) (area : Area) : Prop where
  counted : Counted sinfo area
  within : Within sinfo area

/-- Something holds of the server and of each of its queues. -/
structure Everywhere (Holds : ServerInfo F → Area → Prop) (sinfo : ServerInfo F) : Prop where
  server : Holds sinfo sinfo.area
  queues : ∀ queue ∈ sinfo.queues, Holds sinfo (sinfo.queueInfo queue).area

/-- A snapshot as `query_server` makes it: the counters are right, and `find_alloc_resource_req`
has made one request for each resource. -/
structure Tallied (sinfo : ServerInfo F) : Prop where
  queried : Queried sinfo
  counted : Everywhere Counted sinfo
  distinct : ∀ job ∈ sinfo.jobs, ((sinfo.jobInfo job).resreq.map (·.name)).Nodup

/-! ## The jobs that run -/

/-- The number of running jobs with a property. -/
theorem countP_running (sinfo : ServerInfo F) (jobs : List JobRef) (p : JobRef → Bool) :
    (sinfo.running jobs).countP p = jobs.countP fun job => p job && (sinfo.jobInfo job).isRunning :=
  countP_filter

/-- The records of a job agree on what a round never changes. -/
structure Akin (sinfo sinfo' : ServerInfo F) (job : JobRef) : Prop where
  account : (sinfo'.jobInfo job).account = (sinfo.jobInfo job).account
  group : (sinfo'.jobInfo job).group = (sinfo.jobInfo job).group
  resreq : (sinfo'.jobInfo job).resreq = (sinfo.jobInfo job).resreq

/-- The jobs are the same, and the same ones run. -/
structure Alike (sinfo sinfo' : ServerInfo F) (jobs : List JobRef) : Prop where
  akin : ∀ job, Akin sinfo sinfo' job
  running : ∀ job ∈ jobs, (sinfo'.jobInfo job).isRunning = (sinfo.jobInfo job).isRunning

section

variable {sinfo sinfo' : ServerInfo F}

theorem running_congr {jobs : List JobRef} (alike : Alike sinfo sinfo' jobs) :
    sinfo'.running jobs = sinfo.running jobs :=
  filter_congr alike.running

theorem countByUser_congr (akin : ∀ job, Akin sinfo sinfo' job) (jobs : List JobRef)
    (user : List Char) : countByUser sinfo' jobs user = countByUser sinfo jobs user := by
  unfold countByUser
  simp only [(akin _).account]

theorem countByGroup_congr (akin : ∀ job, Akin sinfo sinfo' job) (jobs : List JobRef)
    (group : List Char) : countByGroup sinfo' jobs group = countByGroup sinfo jobs group := by
  unfold countByGroup
  simp only [(akin _).group]

theorem InBounds.congr {area : Area} (alike : Alike sinfo sinfo' area.jobs)
    (inBounds : InBounds sinfo area) : InBounds sinfo' area := by
  have running := running_congr alike
  constructor
  · constructor
    · rw [running]
      exact inBounds.counted.array
    · rw [running]
      exact inBounds.counted.counter
  · constructor
    · rw [running]
      exact inBounds.within.jobs
    · intro user
      rw [running, countByUser_congr alike.akin]
      exact inBounds.within.users user
    · intro group
      rw [running, countByGroup_congr alike.akin]
      exact inBounds.within.groups group
    · exact inBounds.within.stocked

end

/-! ## A job is started -/

/-- What a start does to the server and to the queue of the job. -/
def Area.onRun (sinfo : ServerInfo F) (resreq : List ResourceReq) (area : Area) : Area :=
  { area with
    sc := area.sc.onRun
    res := assignResources resreq area.res
    runningJobs := sinfo.running area.jobs }

/-- The checks that a job passes, for the server and for its queue. -/
structure Passes (sinfo : ServerInfo F) (area : Area) (job : JobRef) : Prop where
  jobs : Under area.maxRun (area.sc.running + 1)
  user : Under area.maxUserRun
    (countByUser sinfo area.runningJobs (sinfo.jobInfo job).account + 1)
  group : Under area.maxGroupRun
    (countByGroup sinfo area.runningJobs (sinfo.jobInfo job).group + 1)
  resources : checkAvailResources area.res (sinfo.jobInfo job).resreq = none

/-- Of all jobs only the one that is started begins to run. -/
structure Starts (sinfo sinfo' : ServerInfo F) (job : JobRef) : Prop where
  akin : ∀ job, Akin sinfo sinfo' job
  idle : (sinfo.jobInfo job).isRunning = false
  running : (sinfo'.jobInfo job).isRunning = true
  others : ∀ other, other ≠ job →
    (sinfo'.jobInfo other).isRunning = (sinfo.jobInfo other).isRunning

/-- A limit on the jobs of a kind is met after a start. -/
theorem Under.add {limit count : Int} {kind : Bool} (before : Under limit count)
    (room : kind = true → Under limit (count + 1)) : Under limit (count + kind.toNat) := by
  cases kind with
  | true => exact room rfl
  | false => simpa using before

section

variable {sinfo sinfo' : ServerInfo F} {area : Area} {job : JobRef} {jobs : List JobRef}

/-- A start adds one to the running jobs with a property, if the job has the property. -/
theorem countP_running_of_starts (starts : Starts sinfo sinfo' job) (nodup : jobs.Nodup)
    (mem : job ∈ jobs) (p : JobRef → Bool) :
    (sinfo'.running jobs).countP p = (sinfo.running jobs).countP p + (p job).toNat := by
  rw [countP_running, countP_running]
  have turned := countP_turned nodup mem
    (fun other ne => show (p other && (sinfo'.jobInfo other).isRunning) =
      (p other && (sinfo.jobInfo other).isRunning) by rw [starts.others other ne])
  simpa [starts.idle, starts.running] using turned

theorem length_running_of_starts (starts : Starts sinfo sinfo' job) (nodup : jobs.Nodup)
    (mem : job ∈ jobs) : (sinfo'.running jobs).length = (sinfo.running jobs).length + 1 := by
  have count := countP_running_of_starts starts nodup mem fun _ => true
  simpa using count

theorem Counted.onRun (counted : Counted sinfo area) (starts : Starts sinfo sinfo' job)
    (nodup : area.jobs.Nodup) (mem : job ∈ area.jobs) (resreq : List ResourceReq) :
    Counted sinfo' (area.onRun sinfo' resreq) := by
  constructor
  · rfl
  · change area.sc.running + 1 = _
    rw [counted.counter]
    exact (congrArg Nat.cast (length_running_of_starts starts nodup mem)).symm

theorem InBounds.onRun (inBounds : InBounds sinfo area) (starts : Starts sinfo sinfo' job)
    (nodup : area.jobs.Nodup) (mem : job ∈ area.jobs) (passes : Passes sinfo area job)
    (distinct : ((sinfo.jobInfo job).resreq.map (·.name)).Nodup)
    (unharmed : Unharmed area.res (sinfo.jobInfo job).resreq) :
    InBounds sinfo' (area.onRun sinfo' (sinfo.jobInfo job).resreq) := by
  rcases inBounds with ⟨counted, within⟩
  refine ⟨counted.onRun starts nodup mem _, ?_⟩
  have jobs := passes.jobs
  have user := passes.user
  have group := passes.group
  rw [counted.counter] at jobs
  rw [counted.array] at user group
  constructor
  · change Under area.maxRun (sinfo'.running area.jobs).length
    rw [length_running_of_starts starts nodup mem]
    exact jobs
  · intro other
    change Under area.maxUserRun (countByUser sinfo' (sinfo'.running area.jobs) other)
    rw [countByUser_congr starts.akin, countByUser, countP_running_of_starts starts nodup mem,
      Int.natCast_add]
    refine (within.users other).add fun own => ?_
    rw [← of_decide_eq_true own]
    exact user
  · intro other
    change Under area.maxGroupRun (countByGroup sinfo' (sinfo'.running area.jobs) other)
    rw [countByGroup_congr starts.akin, countByGroup, countP_running_of_starts starts nodup mem,
      Int.natCast_add]
    refine (within.groups other).add fun own => ?_
    rw [← of_decide_eq_true own]
    exact group
  · exact within.stocked.assignResources distinct unharmed passes.resources

end

variable {code : FailCode}

/-! ## The checks -/

theorem under_of_checkMaxRun {maxRun : Int} {sc : StateCount}
    (passes : checkMaxRun maxRun sc code = none) : Under maxRun (sc.running + 1) := by
  unfold checkMaxRun at passes
  split at passes
  · next unlimited => exact .inl unlimited
  · split at passes
    · next room => exact .inr room
    · cases passes

theorem under_of_checkMaxCount {maxCount count : Int}
    (passes : checkMaxCount maxCount count code = none) : Under maxCount (count + 1) := by
  unfold checkMaxCount at passes
  split at passes
  · next allowed =>
    rcases allowed with unlimited | room
    · exact .inl unlimited
    · exact .inr room
  · cases passes

section

variable [Floating F] {policy : Policy} {query : RescQuery} {sinfo : ServerInfo F} {job : JobRef}

variable (ok : (isOkToRunJob policy query sinfo job).1 = none)
include ok

/-- A job that may run has passed all the checks. -/
theorem checks_of_isOkToRunJob :
    checkLimits policy sinfo job = none ∧
      (checkNodes policy query sinfo (sinfo.jobInfo job)).1 = none ∧
      checkResources sinfo job = none := by
  unfold isOkToRunJob at ok
  split at ok
  · cases ok
  · next passes => exact ⟨passes, (Option.orElse_eq_none _ _).1 ok⟩

theorem passes_of_isOkToRunJob :
    Passes sinfo sinfo.area job ∧ Passes sinfo (sinfo.queueOf job).area job := by
  rcases checks_of_isOkToRunJob ok with ⟨limits, -, resources⟩
  rcases (Option.orElse_eq_none _ _).1 limits with ⟨server, limits⟩
  rcases (Option.orElse_eq_none _ _).1 limits with ⟨serverUser, limits⟩
  rcases (Option.orElse_eq_none _ _).1 limits with ⟨serverGroup, limits⟩
  rcases (Option.orElse_eq_none _ _).1 limits with ⟨queue, limits⟩
  rcases (Option.orElse_eq_none _ _).1 limits with ⟨queueUser, limits⟩
  rcases (Option.orElse_eq_none _ _).1 limits with ⟨queueGroup, -⟩
  rcases (Option.orElse_eq_none _ _).1 resources with ⟨queueResources, resources⟩
  rcases (Option.orElse_eq_none _ _).1 resources with ⟨serverResources, -⟩
  constructor
  · exact ⟨under_of_checkMaxRun server, under_of_checkMaxCount serverUser,
      under_of_checkMaxCount serverGroup, serverResources⟩
  · exact ⟨under_of_checkMaxRun queue, under_of_checkMaxCount queueUser,
      under_of_checkMaxCount queueGroup, queueResources⟩

end

/-! ## A round -/

section

variable [Floating F] (policy : Policy) (bestNode : Option Nat) (job : JobRef)
  (sinfo : ServerInfo F)

theorem area_updateOnRun : (updateOnRun policy bestNode job sinfo).area =
    sinfo.area.onRun (updateOnRun policy bestNode job sinfo) (sinfo.jobInfo job).resreq := by
  rcases updateOnRun_eq policy bestNode job sinfo with ⟨nodes, groups, equal⟩
  rw [equal]
  rfl

theorem queueOf_updateOnRun :
    ((updateOnRun policy bestNode job sinfo).queueInfo (sinfo.jobInfo job).queue).area =
      (sinfo.queueOf job).area.onRun (updateOnRun policy bestNode job sinfo)
        (sinfo.jobInfo job).resreq := by
  rcases updateOnRun_eq policy bestNode job sinfo with ⟨nodes, groups, equal⟩
  rw [equal]
  simp [refreshRunning, updateJobOnRun, updateQueueOnRun, updateServerOnRun, ServerInfo.putJob,
    ServerInfo.queueOf, QueueInfo.area, Area.onRun, ServerInfo.running]

theorem queueInfo_updateOnRun {queue : QueueRef} (other : queue ≠ (sinfo.jobInfo job).queue) :
    (updateOnRun policy bestNode job sinfo).queueInfo queue = sinfo.queueInfo queue := by
  rcases updateOnRun_eq policy bestNode job sinfo with ⟨nodes, groups, equal⟩
  rw [equal]
  simp [refreshRunning, updateJobOnRun, updateQueueOnRun, updateServerOnRun, ServerInfo.putJob,
    other]

end

theorem jobInfo_flagged (sinfo : ServerInfo F) (job : JobRef) (canNeverRun : Bool) :
    (sinfo.flagged job canNeverRun).jobInfo job =
      { sinfo.jobInfo job with canNeverRun := canNeverRun } :=
  update_self job _ _

section

variable {sinfo sinfo' : ServerInfo F} {free : JobRef → Prop} (marks : sinfo.Marks free sinfo')
include marks

theorem Akin.of_marks (job : JobRef) : Akin sinfo sinfo' job := by
  constructor <;> rw [(marks.record job).rest]

theorem Everywhere.of_marks (everywhere : Everywhere InBounds sinfo) :
    Everywhere InBounds sinfo' := by
  have alike : ∀ jobs, Alike sinfo sinfo' jobs := fun jobs =>
    ⟨.of_marks marks, fun job _ => by rw [(marks.record job).rest]⟩
  constructor
  · have area : sinfo'.area = sinfo.area := by rw [marks.rest]; rfl
    rw [area]
    exact everywhere.server.congr (alike _)
  · intro queue mem
    have same : sinfo'.queueInfo = sinfo.queueInfo := by rw [marks.rest]
    rw [marks.rest] at mem
    rw [same]
    exact (everywhere.queues queue mem).congr (alike _)

end

/-! ## The queue of a job -/

section

variable {sinfo : ServerInfo F}

theorem Queried.queue_mem (queried : Queried sinfo) {job : JobRef} (mem : job ∈ sinfo.jobs) :
    (sinfo.jobInfo job).queue ∈ sinfo.queues ∧
      job ∈ (sinfo.queueInfo (sinfo.jobInfo job).queue).jobs := by
  rcases mem_flatMap.1 (queried.all.mem_iff.1 mem) with ⟨queue, here, within⟩
  rw [queried.owned queue here job within]
  exact ⟨here, within⟩

end

/-! ## Every cycle -/

section

variable [Floating F] {policy : Policy} {sinfo : ServerInfo F} {cycle : Cycle F} {job : JobRef}
  {Invariant : Cycle F → Prop} {answers : Answers}

theorem starts_updateOnRun (policy : Policy) (bestNode : Option Nat) (sinfo : ServerInfo F)
    (idle : (sinfo.jobInfo job).isRunning = false) (canNeverRun : Bool) :
    Starts sinfo (updateOnRun policy bestNode job (sinfo.flagged job canNeverRun)) job := by
  have others : ∀ other, other ≠ job →
      (updateOnRun policy bestNode job (sinfo.flagged job canNeverRun)).jobInfo other =
        sinfo.jobInfo other := by
    intro other ne
    rw [jobInfo_updateOnRun, update_of_ne ne]
    exact update_of_ne ne _ _
  have own : (updateOnRun policy bestNode job (sinfo.flagged job canNeverRun)).jobInfo job =
      { sinfo.jobInfo job with
        canNeverRun := canNeverRun, isQueued := false, isRunning := true } := by
    rw [jobInfo_updateOnRun, update_self, jobInfo_flagged]
  constructor
  · intro other
    by_cases same : other = job
    · rw [same]
      constructor <;> rw [own]
    · constructor <;> rw [others other same]
  · exact idle
  · rw [own]
  · intro other ne
    rw [others other ne]

/-- The tests that a job comes to are not harmed by the `int`. -/
def Measured (policy : Policy) (cycle : Cycle F) (answers : Answers) : Prop :=
  cycle.ended = false → ∀ job ∈ (nextJob policy cycle.sinfo cycle.iterator).2,
    checkLimits policy cycle.sinfo job = none →
    (checkNodes policy answers.query cycle.sinfo (cycle.sinfo.jobInfo job)).1 = none →
      Unharmed (cycle.sinfo.queueOf job).qres (cycle.sinfo.jobInfo job).resreq ∧
        Unharmed cycle.sinfo.res (cycle.sinfo.jobInfo job).resreq
deriving Decidable

/-- What the rounds of a cycle keep. -/
structure Limited (sinfo : ServerInfo F) (cycle : Cycle F) : Prop where
  inBounds : Everywhere InBounds cycle.sinfo
  resreq : ∀ job, (cycle.sinfo.jobInfo job).resreq = (sinfo.jobInfo job).resreq

omit [Floating F] in
theorem Limited.of_marks {sinfo' : ServerInfo F} {free : JobRef → Prop} {iterator : Iterator}
    {considered : List Considered} (limited : Limited sinfo cycle)
    (marks : cycle.sinfo.Marks free sinfo') :
    Limited sinfo ⟨sinfo', iterator, false, considered⟩ where
  inBounds := limited.inBounds.of_marks marks
  resreq other := (Akin.of_marks marks other).resreq.trans (limited.resreq other)

theorem Everywhere.onRun (queried : Queried sinfo) (keeps : Keeps sinfo cycle.sinfo)
    (everywhere : Everywhere InBounds cycle.sinfo) (mem : job ∈ sinfo.jobs)
    (idle : (cycle.sinfo.jobInfo job).isRunning = false)
    (distinct : ((cycle.sinfo.jobInfo job).resreq.map (·.name)).Nodup)
    (passes : Passes cycle.sinfo cycle.sinfo.area job ∧
      Passes cycle.sinfo (cycle.sinfo.queueOf job).area job)
    (unharmed : Unharmed (cycle.sinfo.queueOf job).qres (cycle.sinfo.jobInfo job).resreq ∧
      Unharmed cycle.sinfo.res (cycle.sinfo.jobInfo job).resreq)
    (bestNode : Option Nat) (canNeverRun : Bool) :
    Everywhere InBounds
      (updateOnRun policy bestNode job (cycle.sinfo.flagged job canNeverRun)) := by
  have starts := starts_updateOnRun policy bestNode cycle.sinfo idle canNeverRun
  have record := jobInfo_flagged cycle.sinfo job canNeverRun
  rcases queried.queue_mem mem with ⟨queueMem, within⟩
  have jobs := keeps.queueOf job
  constructor
  · have area := area_updateOnRun policy bestNode job (cycle.sinfo.flagged job canNeverRun)
    rw [record] at area
    rw [area]
    refine everywhere.server.onRun starts ?_ ?_ passes.1 distinct unharmed.2
    · change cycle.sinfo.jobs.Nodup
      rw [keeps.order]
      exact queried.nodup
    · change job ∈ cycle.sinfo.jobs
      rw [keeps.order]
      exact mem
  · intro queue here
    rw [(Keeps.updateOnRun policy bestNode job).queues] at here
    change queue ∈ cycle.sinfo.queues at here
    by_cases own : queue = (cycle.sinfo.jobInfo job).queue
    · have area := queueOf_updateOnRun policy bestNode job (cycle.sinfo.flagged job canNeverRun)
      rw [ServerInfo.queueOf, record] at area
      rw [own] at here ⊢
      refine area ▸ (everywhere.queues _ here).onRun starts ?_ ?_ passes.2 distinct unharmed.1
      · change (cycle.sinfo.queueOf job).jobs.Nodup
        rw [jobs]
        have nodup := queried.all.nodup_iff.1 queried.nodup
        exact (nodup_flatMap.1 nodup).1 _ queueMem
      · change job ∈ (cycle.sinfo.queueOf job).jobs
        rw [jobs]
        exact within
    · have other : queue ≠ ((cycle.sinfo.flagged job canNeverRun).jobInfo job).queue := by
        rw [record]
        exact own
      rw [queueInfo_updateOnRun policy bestNode job _ other]
      refine (everywhere.queues queue here).congr ⟨starts.akin, fun member inside => ?_⟩
      apply starts.others
      rintro rfl
      change member ∈ (cycle.sinfo.queueInfo queue).jobs at inside
      rw [keeps.queues] at here
      rw [keeps.jobs] at inside
      rw [keeps.queue] at own
      exact own (queried.owned queue here member inside).symm

variable (tallied : Tallied sinfo) (proper : Proper policy sinfo Invariant)
include tallied proper

theorem Limited.after (invariant : Invariant cycle) (limited : Limited sinfo cycle)
    {iterator : Iterator} (goesOn : cycle.ended = false)
    (next : nextJob policy cycle.sinfo cycle.iterator = (iterator, some job))
    (measured : Measured policy cycle answers) :
    Limited sinfo (cycle.after policy answers iterator job) := by
  rcases proper.idle cycle iterator job invariant next with ⟨mem, idle⟩
  have keeps := proper.keeps cycle invariant
  refine considerJob_induction (motive := fun outcome sinfo' => Limited sinfo
    ⟨sinfo', iterator, false, cycle.considered ++ [⟨job, outcome⟩]⟩) ?_ ?_ ?_
  · intro canNeverRun ok _
    rcases checks_of_isOkToRunJob ok with ⟨limits, nodes, -⟩
    have unharmed := measured goesOn job (by rw [next]; rfl) limits nodes
    have distinct := tallied.distinct job mem
    rw [← limited.resreq] at distinct
    have starts := starts_updateOnRun policy answers.bestNode cycle.sinfo idle canNeverRun
    constructor
    · exact limited.inBounds.onRun tallied.queried keeps mem idle distinct
        (passes_of_isOkToRunJob ok) unharmed answers.bestNode canNeverRun
    · exact fun other => (starts.akin other).resreq.trans (limited.resreq other)
  · exact fun canNeverRun _ _ => limited.of_marks (.flagged _ (fun _ => True) job canNeverRun)
  · exact fun _ _ _ marks _ _ => limited.of_marks marks

theorem Limited.round
    (before : (cycle.ended = true ∨ Invariant cycle) ∧ Limited sinfo cycle)
    (measured : Measured policy cycle answers) :
    ((cycle.round policy answers).ended = true ∨ Invariant (cycle.round policy answers)) ∧
      Limited sinfo (cycle.round policy answers) := by
  by_cases goesOn : cycle.ended = false
  · rcases before with ⟨ended | invariant, limited⟩
    · cases goesOn.symm.trans ended
    cases next : nextJob policy cycle.sinfo cycle.iterator with
    | mk iterator found =>
      cases found with
      | none =>
        rw [round_none goesOn next]
        exact ⟨.inl rfl, limited.inBounds, limited.resreq⟩
      | some job =>
        rw [round_some goesOn next]
        exact ⟨.inr (proper.after cycle iterator job answers invariant next),
          limited.after tallied proper invariant goesOn next measured⟩
  · have stays : cycle.round policy answers = cycle := by
      unfold Cycle.round
      rw [if_pos (by simpa using goesOn)]
    rw [stays]
    exact before

end

/-- In every cycle of a snapshot within its limits the limits are met after each start, if the tests
that the jobs come to are not harmed by the `int`.  And only if it does no harm to a job for which
there is enough does `check_avail_resources` refuse no such job. -/
theorem cycle_within_limits [Floating F] (policy : Policy) (sinfo : ServerInfo F)
    (tallied : Tallied sinfo) (within : Everywhere Within sinfo) :
    (∀ answers, Admissible (Cycle.round policy) (Measured policy) (.start policy sinfo) answers →
      Everywhere Within (run (Cycle.round policy) (.start policy sinfo) answers).sinfo) ∧
    ∀ reslist resreq,
      (checkAvailResources reslist resreq ≠ none → Insufficient reslist resreq) ↔
        (¬ Insufficient reslist resreq → Unharmed reslist resreq) := by
  constructor
  · intro answers measured
    rcases exists_proper policy tallied.queried with ⟨Invariant, proper⟩
    have start : Limited sinfo (.start policy sinfo) := by
      constructor
      · constructor
        · exact ⟨tallied.counted.server, within.server⟩
        · exact fun queue mem => ⟨tallied.counted.queues queue mem, within.queues queue mem⟩
      · exact fun _ => rfl
    have reached := invariant
      (fun cycle => (cycle.ended = true ∨ Invariant cycle) ∧ Limited sinfo cycle)
      ⟨.inr proper.start, start⟩
      (fun cycle answer before measured => Limited.round tallied proper before measured) measured
    have limited := reached.2
    constructor
    · exact limited.inBounds.server.within
    · exact fun queue mem => (limited.inBounds.queues queue mem).within
  · exact fun reslist resreq => refused_iff

variable (avail amount : Int)

/-- One job, which asks for memory. -/
def oneJob : ServerInfo ℚ where
  res := [⟨.mem, avail, infinityVal, 0⟩]
  maxRun := 1
  maxUserRun := 1
  maxGroupRun := 1
  sc := ⟨0, 1⟩
  queues := [0]
  jobs := [0]
  runningJobs := []
  timesharingNodes := none
  tokens := []
  jobInfo := fun _ =>
    ⟨true, false, false, false, ['u'], ['g'], 0, [⟨.mem, amount, []⟩], none, 0⟩
  queueInfo := fun _ => ⟨⟨0, 1⟩, 1, 1, 1, [], [0], []⟩
  groupInfo := fun _ => ⟨1, 1⟩

theorem tallied_oneJob : Tallied (oneJob avail amount) := by
  constructor
  · constructor
    · exact List.Perm.refl _
    · exact nodup_singleton 0
    · intro queue mem job _
      exact (mem_singleton.1 mem).symm
    · intro job _ unqueued
      cases unqueued
    · exact fun _ _ _ => rfl
  · exact ⟨⟨rfl, rfl⟩, fun _ _ => ⟨rfl, rfl⟩⟩
  · intro job _
    exact nodup_singleton _

theorem within_oneJob {avail : Int} (nonneg : 0 ≤ avail) (amount : Int) :
    Everywhere Within (oneJob avail amount) := by
  constructor
  · refine ⟨.inr Int.one_nonneg, fun _ => .inr Int.one_nonneg, fun _ => .inr Int.one_nonneg, ?_⟩
    rintro name - res found -
    rcases mem_singleton.1 (mem_of_find?_eq_some found) with rfl
    exact nonneg
  · intro queue _
    refine ⟨.inr Int.one_nonneg, fun _ => .inr Int.one_nonneg, fun _ => .inr Int.one_nonneg, ?_⟩
    rintro name - res found -
    cases found

/-- The job takes all the memory that there is. -/
theorem cycle_within_limits_oneJob :
    (run (Cycle.round (strictPolicy false)) (.start (strictPolicy false) (oneJob 2 2))
        [⟨⟨0, 1⟩, 0, none⟩, ⟨⟨0, 1⟩, 0, none⟩]).considered = [⟨0, .started⟩] ∧
      Everywhere Within
        (run (Cycle.round (strictPolicy false)) (.start (strictPolicy false) (oneJob 2 2))
          [⟨⟨0, 1⟩, 0, none⟩, ⟨⟨0, 1⟩, 0, none⟩]).sinfo := by
  refine ⟨by decide +kernel, ?_⟩
  exact (cycle_within_limits (strictPolicy false) (oneJob 2 2) (tallied_oneJob 2 2)
    (within_oneJob (by decide) 2)).1 _ (by decide +kernel)

/-- A job is started that takes more than there is, if what is left looks like `INFINITY_VAL` in an
`int`.  A job is refused although there is enough, if what is left does not fit. -/
theorem cycle_exceeds_limits :
    (¬ ∀ (policy : Policy) (sinfo : ServerInfo ℚ) (answers : List Answers), Tallied sinfo →
      Everywhere Within sinfo →
      Everywhere Within (run (Cycle.round policy) (.start policy sinfo) answers).sinfo) ∧
    ¬ ∀ reslist resreq,
      checkAvailResources reslist resreq ≠ none → Insufficient reslist resreq := by
  constructor
  · intro limits
    have after := limits (strictPolicy false) (oneJob 4294967294 4294967295)
      [⟨⟨0, 1⟩, 0, none⟩] (tallied_oneJob _ _) (within_oneJob (by decide) _)
    have assigned : findResource (run (Cycle.round (strictPolicy false))
        (.start (strictPolicy false) (oneJob 4294967294 4294967295))
        [⟨⟨0, 1⟩, 0, none⟩]).sinfo.res .mem =
          some ⟨.mem, 4294967294, infinityVal, 4294967295⟩ := by decide +kernel
    have less := after.server.stocked .mem (by decide) _ assigned (by decide)
    revert less
    decide
  · intro exact_
    have refused := exact_ [⟨.mem, 2147483648, infinityVal, 0⟩] [⟨.mem, 1, []⟩]
      (by decide +kernel)
    revert refused
    decide +kernel

end Torque.Scheduler
