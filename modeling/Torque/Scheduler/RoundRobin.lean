import Mathlib.Data.List.Pairwise
import Torque.Scheduler.FairShare

/-!
# Going round the queues

The round robin goes round the queues, and in each round to the next position of every queue.  The
`k`-th visit over all is to queue `k % n` at position `k / n`, where `n` is the number of queues.
`next_job` makes at most `n` visits, and ends the cycle if none of them has a job to return.

Without fair share that is right only if all jobs further behind are marked as well.  With fair
share a visit chooses the best job of the queue, so that a queue has at most as many jobs that wait
as visits that are still to come.
-/

namespace Torque.Scheduler

open Torque.Numa Torque.Transition List

variable {F : Type} {iterator : Iterator} {v n : Nat}

/-! ## Visits -/

/-- The queue and the position of the next visit. -/
theorem succ_div_mod (pos : 0 < n) (v : Nat) :
    (v % n + 1 = n ∧ (v + 1) % n = 0 ∧ (v + 1) / n = v / n + 1) ∨
      (v % n + 1 < n ∧ (v + 1) % n = v % n + 1 ∧ (v + 1) / n = v / n) := by
  have less := Nat.mod_lt v pos
  have whole : v + 1 = n * (v / n) + (v % n + 1) := by
    rw [← Nat.add_assoc, Nat.div_add_mod]
  rcases Nat.lt_or_eq_of_le (show v % n + 1 ≤ n from less) with inside | last
  · refine .inr ⟨inside, ?_, ?_⟩
    · rw [whole, Nat.mul_add_mod, Nat.mod_eq_of_lt inside]
    · rw [whole, Nat.mul_add_div pos, Nat.div_eq_of_lt inside, Nat.add_zero]
  · refine .inl ⟨last, ?_, ?_⟩
    · rw [whole, last, Nat.mul_add_mod, Nat.mod_self]
    · rw [whole, last, Nat.mul_add_div pos, Nat.div_self pos]

/-- Where `next_job` stands after so many visits. -/
inductive StandsAt (n : Nat) : Nat → Iterator → Prop where
  | first (iterator : Iterator) : iterator.lastQueue = -1 → iterator.lastJob = 0 →
      StandsAt n 0 iterator
  | next (v : Nat) (iterator : Iterator) : iterator.lastQueue = (v % n : Nat) →
      iterator.lastJob = (v / n : Nat) → StandsAt n (v + 1) iterator

theorem StandsAt.advance (pos : 0 < n) (stands : StandsAt n v iterator) :
    (iterator.advance n).lastQueue = (v % n : Nat) ∧
      (iterator.advance n).lastJob = (v / n : Nat) := by
  unfold Iterator.advance
  cases stands with
  | first _ lastQueue lastJob =>
    rw [if_neg (by rw [lastQueue]; omega)]
    simp [lastQueue, lastJob]
  | next v _ lastQueue lastJob =>
    rcases succ_div_mod pos v with ⟨last, mod, div⟩ | ⟨inside, mod, div⟩
    · rw [if_pos (by rw [lastQueue]; omega), mod, div]
      simp [lastJob]
    · rw [if_neg (by rw [lastQueue]; omega), mod, div]
      simp [lastQueue, lastJob]

theorem StandsAt.visited (stands : StandsAt n v iterator) : iterator.visited n = v := by
  unfold Iterator.visited
  cases stands with
  | first _ lastQueue lastJob => simp [lastQueue, lastJob]
  | next v _ lastQueue lastJob =>
    rw [lastQueue, lastJob, ← Nat.cast_mul, ← Nat.cast_add, Nat.div_add_mod']
    rfl

section

variable {sinfo : ServerInfo F} {policy : Policy} {iterator : Iterator} {v rounds : Nat}

/-- The arrays that `next_job` holds are those of the queues, but for those that it has come to the
end of. -/
structure Aligned (sinfo : ServerInfo F) (v : Nat) (iterator : Iterator) : Prop where
  stands : StandsAt sinfo.queues.length v iterator
  arrays : ∀ index < sinfo.queues.length, iterator.cjobs[index]? = some (some (jobsAt sinfo index)) ∨
    iterator.cjobs[index]? = some none ∧ (jobsAt sinfo index).length ≤ v / sinfo.queues.length

theorem aligned_start (roundRobin : policy.roundRobin = true) :
    Aligned sinfo 0 (nextJobInit policy sinfo) := by
  unfold nextJobInit
  rw [if_pos roundRobin]
  constructor
  · exact .first _ rfl rfl
  · intro index inQueues
    refine .inl ?_
    simp [jobsAt, getElem?_eq_getElem inQueues]

theorem Aligned.advance (pos : 0 < sinfo.queues.length) (aligned : Aligned sinfo v iterator) :
    Aligned sinfo (v + 1) (iterator.advance sinfo.queues.length) := by
  have stands := aligned.stands.advance pos
  have same : (iterator.advance sinfo.queues.length).cjobs = iterator.cjobs := by
    unfold Iterator.advance
    split <;> rfl
  constructor
  · exact .next v _ stands.1 stands.2
  · intro index inQueues
    rw [same]
    rcases aligned.arrays index inQueues with whole | ⟨done, short⟩
    · exact .inl whole
    · exact .inr ⟨done, short.trans (Nat.div_le_div_right v.le_succ)⟩

/-- An array that has come to its end is put aside. -/
theorem Aligned.exhaust (aligned : Aligned sinfo v iterator) {index : Nat}
    (short : (jobsAt sinfo index).length ≤ v / sinfo.queues.length) :
    Aligned sinfo v { iterator with cjobs := iterator.cjobs.set index none } := by
  constructor
  · cases aligned.stands with
    | first _ lastQueue lastJob => exact .first _ lastQueue lastJob
    | next v _ lastQueue lastJob => exact .next v _ lastQueue lastJob
  · intro other inQueues
    by_cases here : index = other
    · subst here
      refine .inr ⟨?_, short⟩
      rw [getElem?_set_self']
      rcases aligned.arrays index inQueues with whole | ⟨done, -⟩
      · rw [whole]
        rfl
      · rw [done]
        rfl
    · rw [getElem?_set_ne here]
      exact aligned.arrays other inQueues

variable [Floating F]

theorem roundRobinLoop_succ (policy : Policy) (pos : 0 < sinfo.queues.length)
    (aligned : Aligned sinfo v iterator) (rounds : Nat) :
    ∃ next, Aligned sinfo (v + 1) next ∧
      roundRobinLoop policy sinfo (rounds + 1) iterator =
        match visit policy sinfo v with
        | none => roundRobinLoop policy sinfo rounds next
        | some job => (next, some job) := by
  have further := aligned.advance pos
  have inQueues := Nat.mod_lt v pos
  have lastQueue : (iterator.advance sinfo.queues.length).lastQueue.toNat =
      v % sinfo.queues.length := by
    rw [(aligned.stands.advance pos).1, Int.toNat_natCast]
  have lastJob : (iterator.advance sinfo.queues.length).lastJob.toNat =
      v / sinfo.queues.length := by
    rw [(aligned.stands.advance pos).2, Int.toNat_natCast]
  have short : (iterator.advance sinfo.queues.length).cjobs[v % sinfo.queues.length]? = some none →
      (jobsAt sinfo (v % sinfo.queues.length))[v / sinfo.queues.length]? = none := by
    intro done
    have same : (iterator.advance sinfo.queues.length).cjobs = iterator.cjobs := by
      unfold Iterator.advance
      split <;> rfl
    rw [same] at done
    rcases aligned.arrays _ inQueues with whole | ⟨-, short⟩
    · cases done.symm.trans whole
    · exact getElem?_eq_none_iff.2 short
  rw [roundRobinLoop, visit]
  generalize iterator.advance sinfo.queues.length = next at *
  rw [lastQueue, lastJob, getD_eq_getElem?_getD]
  rcases further.arrays _ inQueues with whole | ⟨done, -⟩
  · rw [whole, Option.getD_some]
    dsimp only
    cases at_ : (jobsAt sinfo (v % sinfo.queues.length))[v / sinfo.queues.length]? with
    | none =>
      have end_ := getElem?_eq_none_iff.1 at_
      exact ⟨_, further.exhaust (end_.trans (Nat.div_le_div_right v.le_succ)), rfl⟩
    | some job => exact ⟨next, further, rfl⟩
  · rw [done, Option.getD_some, short done]
    exact ⟨next, further, rfl⟩

/-- The loop returns the first job that a visit chooses. -/
theorem roundRobinLoop_spec {iterator' : Iterator} {result : Option JobRef}
    (pos : 0 < sinfo.queues.length) (aligned : Aligned sinfo v iterator)
    (returned : roundRobinLoop policy sinfo rounds iterator = (iterator', result)) :
    result.elim (∀ e < rounds, visit policy sinfo (v + e) = none) fun job =>
      ∃ d, visit policy sinfo (v + d) = some job ∧
        (∀ e < d, visit policy sinfo (v + e) = none) ∧ Aligned sinfo (v + d + 1) iterator' := by
  induction rounds generalizing v iterator with
  | zero =>
    cases returned
    exact fun e early => absurd early (Nat.not_lt_zero e)
  | succ rounds ih =>
    rcases roundRobinLoop_succ policy pos aligned rounds with ⟨next, further, loop⟩
    rw [loop] at returned
    cases here : visit policy sinfo v with
    | some chosen =>
      rw [here] at returned
      cases returned
      exact ⟨0, here, fun e early => absurd early (Nat.not_lt_zero e), further⟩
    | none =>
      rw [here] at returned
      have rest := ih further returned
      have more : ∀ d, (∀ e < d, visit policy sinfo (v + 1 + e) = none) →
          ∀ e < d + 1, visit policy sinfo (v + e) = none := by
        intro d none_
        refine Nat.forall_lt_succ_left.2 ⟨here, fun e early => ?_⟩
        rw [Nat.add_comm e, ← Nat.add_assoc]
        exact none_ e early
      cases result with
      | none => exact more rounds rest
      | some job =>
        obtain ⟨d, chosen, none_, aligned'⟩ := rest
        have step : v + 1 + d = v + (d + 1) := by omega
        rw [step] at chosen aligned'
        exact ⟨d + 1, chosen, more d none_, aligned'⟩

end

/-! ## Without fair share -/

section

variable {policy : Policy} {sinfo : ServerInfo F} {cycle : Cycle F} {job : JobRef}
  {iterator : Iterator} {index v k : Nat}

/-- The job of a visit. -/
def jobAt (sinfo : ServerInfo F) (k : Nat) : Option JobRef :=
  (jobsAt sinfo (k % sinfo.queues.length))[k / sinfo.queues.length]?

/-- The jobs of the visits that are still to come. -/
def visitAgenda (sinfo : ServerInfo F) (v : Nat) : List JobRef :=
  (range' v (sinfo.jobs.length * sinfo.queues.length - v)).filterMap (jobAt sinfo)

theorem jobsAt_eq (inQueues : index < sinfo.queues.length) :
    jobsAt sinfo index = (sinfo.queueInfo (sinfo.queues.get ⟨index, inQueues⟩)).jobs := by
  simp [jobsAt, getElem?_eq_getElem inQueues]

theorem Queried.mem_jobs (queried : Queried sinfo) :
    job ∈ sinfo.jobs ↔ ∃ index < sinfo.queues.length, job ∈ jobsAt sinfo index := by
  rw [queried.all.mem_iff, mem_flatMap]
  constructor
  · rintro ⟨queue, inQueues, mem⟩
    rcases mem_iff_get.1 inQueues with ⟨⟨index, bound⟩, rfl⟩
    exact ⟨index, bound, by rw [jobsAt_eq bound]; exact mem⟩
  · rintro ⟨index, bound, mem⟩
    rw [jobsAt_eq bound] at mem
    exact ⟨_, get_mem _ _, mem⟩

/-- The arrays of the queues at different indexes share no job. -/
theorem Queried.jobsAt_apart (queried : Queried sinfo) {first second : Nat}
    (here : job ∈ jobsAt sinfo first) (there : job ∈ jobsAt sinfo second)
    (inQueues : first < sinfo.queues.length) (inQueues' : second < sinfo.queues.length) :
    first = second := by
  have nodup := queried.all.nodup_iff.1 queried.nodup
  rw [nodup_flatMap] at nodup
  have apart := pairwise_iff_get.1 nodup.2
  rw [jobsAt_eq inQueues] at here
  rw [jobsAt_eq inQueues'] at there
  rcases Nat.lt_trichotomy first second with less | same | more
  · exact absurd there (disjoint_left.1 (apart ⟨first, inQueues⟩ ⟨second, inQueues'⟩ less) here)
  · exact same
  · exact absurd here (disjoint_left.1 (apart ⟨second, inQueues'⟩ ⟨first, inQueues⟩ more) there)

theorem Queried.nodup_jobsAt (queried : Queried sinfo)
    (inQueues : index < sinfo.queues.length) : (jobsAt sinfo index).Nodup := by
  have nodup := queried.all.nodup_iff.1 queried.nodup
  rw [nodup_flatMap] at nodup
  rw [jobsAt_eq inQueues]
  exact nodup.1 _ (get_mem _ _)

theorem Queried.jobAt_injective (queried : Queried sinfo) (pos : 0 < sinfo.queues.length)
    {k' : Nat} (here : job ∈ jobAt sinfo k) (there : job ∈ jobAt sinfo k') :
    k = k' := by
  have mod := queried.jobsAt_apart (mem_of_getElem? here) (mem_of_getElem? there)
    (Nat.mod_lt k pos) (Nat.mod_lt k' pos)
  have nodup := queried.nodup_jobsAt (Nat.mod_lt k pos)
  unfold jobAt at here there
  rw [← mod] at there
  have div : k / sinfo.queues.length = k' / sinfo.queues.length := by
    exact (List.Nodup.getElem_inj_iff nodup).1
      ((List.getElem?_eq_some_iff.1 here).2.trans (List.getElem?_eq_some_iff.1 there).2.symm)
  rw [← Nat.div_add_mod k sinfo.queues.length, ← Nat.div_add_mod k' sinfo.queues.length, div, mod]

/-- A visit that finds a job is among the first ones. -/
theorem Queried.lt_of_jobAt (queried : Queried sinfo) (pos : 0 < sinfo.queues.length)
    (here : jobAt sinfo k = some job) :
    k < sinfo.jobs.length * sinfo.queues.length := by
  have row := (List.getElem?_eq_some_iff.1 here).1
  have inQueues := Nat.mod_lt k pos
  have length := (queried.nodup_jobsAt inQueues).length_le_of_subset fun _ mem =>
    queried.mem_jobs.2 ⟨_, inQueues, mem⟩
  exact (Nat.div_lt_iff_lt_mul pos).1 (row.trans_le length)

/-- At first all jobs are still to be visited. -/
theorem Queried.visitAgenda_perm (queried : Queried sinfo) :
    sinfo.jobs.Perm (visitAgenda sinfo 0) := by
  by_cases none_ : sinfo.queues.length = 0
  · have empty : sinfo.jobs = [] := by
      apply eq_nil_iff_forall_not_mem.2
      intro job mem
      rcases queried.mem_jobs.1 mem with ⟨index, bound, -⟩
      omega
    rw [visitAgenda, none_, empty]
    exact List.Perm.refl _
  have pos := Nat.pos_of_ne_zero none_
  refine (perm_ext_iff_of_nodup queried.nodup ?_).2 fun job => ?_
  · exact List.Nodup.filterMap (fun k k' job here there =>
      queried.jobAt_injective pos here there) nodup_range'
  · rw [queried.mem_jobs, visitAgenda, mem_filterMap]
    constructor
    · rintro ⟨index, bound, mem⟩
      rcases getElem?_of_mem mem with ⟨row, at_⟩
      have visited : jobAt sinfo (sinfo.queues.length * row + index) = some job := by
        rw [jobAt, Nat.mul_add_mod, Nat.mod_eq_of_lt bound, Nat.mul_add_div pos,
          Nat.div_eq_of_lt bound, Nat.add_zero]
        exact at_
      refine ⟨_, ?_, visited⟩
      rw [mem_range'_1]
      exact ⟨Nat.zero_le _, by simpa using queried.lt_of_jobAt pos visited⟩
    · rintro ⟨k, -, at_⟩
      exact ⟨_, Nat.mod_lt k pos, mem_of_getElem? at_⟩

theorem visitAgenda_split {d : Nat} (inside : v + d < sinfo.jobs.length * sinfo.queues.length)
    (here : jobAt sinfo (v + d) = some job) :
    visitAgenda sinfo v =
      (range' v d).filterMap (jobAt sinfo) ++ job :: visitAgenda sinfo (v + d + 1) := by
  have split : sinfo.jobs.length * sinfo.queues.length - v =
      d + (1 + (sinfo.jobs.length * sinfo.queues.length - (v + d + 1))) := by omega
  rw [visitAgenda, split, ← range'_append_1, ← range'_append_1, filterMap_append,
    filterMap_append, range'_one, filterMap_cons_some here]
  rfl

theorem pos_of_jobAt (here : jobAt sinfo k = some job) : 0 < sinfo.queues.length := by
  apply Nat.pos_of_ne_zero
  intro none_
  have empty : sinfo.queues = [] := length_eq_zero_iff.1 none_
  simp [jobAt, jobsAt, empty] at here

theorem jobsAt_congr {sinfo' : ServerInfo F} (keeps : Keeps sinfo sinfo') (index : Nat) :
    jobsAt sinfo' index = jobsAt sinfo index := by
  unfold jobsAt
  rw [keeps.queues]
  cases sinfo.queues[index]? with
  | none => rfl
  | some queue => exact keeps.jobs queue

theorem jobAt_congr {sinfo' : ServerInfo F} (keeps : Keeps sinfo sinfo') (k : Nat) :
    jobAt sinfo' k = jobAt sinfo k := by
  unfold jobAt
  rw [keeps.queues, jobsAt_congr keeps]

theorem Aligned.congr {sinfo' : ServerInfo F} (keeps : Keeps sinfo sinfo')
    : Aligned sinfo' v iterator ↔ Aligned sinfo v iterator := by
  constructor
  · rintro ⟨stands, arrays⟩
    simp only [keeps.queues, jobsAt_congr keeps] at stands arrays
    exact ⟨stands, arrays⟩
  · rintro ⟨stands, arrays⟩
    constructor
    · rw [keeps.queues]
      exact stands
    · simp only [keeps.queues, jobsAt_congr keeps]
      exact arrays

variable [Floating F]

theorem visit_of_plain (plain : policy.fairShare = false) (k : Nat) :
    visit policy sinfo k = (jobAt sinfo k).filter fun job => !(sinfo.jobInfo job).canNotRun := by
  unfold visit jobAt
  dsimp only
  cases (jobsAt sinfo (k % sinfo.queues.length))[k / sinfo.queues.length]? with
  | none => rfl
  | some job =>
    rw [Option.bind_some, pick, if_neg (by rw [plain]; exact Bool.false_ne_true)]
    cases marked : (sinfo.jobInfo job).canNotRun <;> simp [Option.filter, marked]

/-- `next_job` returns the first job that a visit chooses. -/
theorem nextJob_roundRobin_some (roundRobin : policy.roundRobin = true)
    (keeps : Keeps sinfo cycle.sinfo) (aligned : Aligned sinfo v cycle.iterator)
    (next : nextJob policy cycle.sinfo cycle.iterator = (iterator, some job)) :
    ∃ d, visit policy cycle.sinfo (v + d) = some job ∧
      (∀ e < d, visit policy cycle.sinfo (v + e) = none) ∧ Aligned sinfo (v + d + 1) iterator := by
  unfold nextJob at next
  rw [if_pos roundRobin] at next
  by_cases none_ : cycle.sinfo.queues.length = 0
  · rw [none_] at next
    cases next
  rcases roundRobinLoop_spec (Nat.pos_of_ne_zero none_) ((Aligned.congr keeps).2 aligned) next with
    ⟨d, chosen, before, further⟩
  exact ⟨d, chosen, before, (Aligned.congr keeps).1 further⟩

/-- A visit that chooses no job finds none, or one that is excused. -/
theorem OnAgenda.excused_of_visit (plain : policy.fairShare = false)
    (on : OnAgenda policy sinfo cycle (visitAgenda sinfo v))
    (mem : job ∈ visitAgenda sinfo v) (here : jobAt sinfo k = some job)
    (none_ : visit policy cycle.sinfo k = none) : Excused policy sinfo cycle job := by
  rw [visit_of_plain plain, jobAt_congr on.tracked.keeps, here] at none_
  apply on.excused_of_marked mem
  simpa [Option.filter] using none_

/-- The round robin without fair share. -/
def Visiting (policy : Policy) (sinfo : ServerInfo F) (cycle : Cycle F) : Prop :=
  ∃ v, Aligned sinfo v cycle.iterator ∧ OnAgenda policy sinfo cycle (visitAgenda sinfo v)

section

variable {iterator : Iterator} {job : JobRef} (queried : Queried sinfo)
  (roundRobin : policy.roundRobin = true) (plain : policy.fairShare = false)
  (visiting : Visiting policy sinfo cycle)
  (returned : nextJob policy cycle.sinfo cycle.iterator = (iterator, some job))
include queried roundRobin plain visiting returned

/-- The job that is returned is the first one on the agenda that is not excused. -/
theorem Visiting.split :
    ∃ v d skipped, OnAgenda policy sinfo cycle (visitAgenda sinfo v) ∧
      visitAgenda sinfo v = skipped ++ job :: visitAgenda sinfo (v + d + 1) ∧
      (∀ other ∈ skipped, Excused policy sinfo cycle other) ∧
      (cycle.sinfo.jobInfo job).canNotRun = false ∧ Aligned sinfo (v + d + 1) iterator := by
  rcases visiting with ⟨v, aligned, on⟩
  have keeps := on.tracked.keeps
  rcases nextJob_roundRobin_some roundRobin keeps aligned returned with
    ⟨d, chosen, before, further⟩
  rw [visit_of_plain plain, jobAt_congr keeps, Option.filter_eq_some_iff] at chosen
  rcases chosen with ⟨here, unmarked⟩
  have split := visitAgenda_split (queried.lt_of_jobAt (pos_of_jobAt here) here) here
  refine ⟨v, d, _, on, split, fun other mem => ?_, by simpa using unmarked, further⟩
  rcases mem_filterMap.1 mem with ⟨k, range, visited⟩
  rw [mem_range'_1] at range
  refine on.excused_of_visit plain ?_ visited ?_
  · rw [split]
    exact mem_append_left _ mem
  · have early := before (k - v) (by omega)
    rw [Nat.add_sub_cancel' range.1] at early
    exact early

theorem Visiting.next :
    ∃ v, OnAgenda policy sinfo cycle (visitAgenda sinfo v) ∧ job ∈ visitAgenda sinfo v ∧
      (cycle.sinfo.jobInfo job).canNotRun = false := by
  rcases visiting.split queried roundRobin plain returned with
    ⟨v, d, skipped, on, split, -, unmarked, -⟩
  refine ⟨v, on, ?_, unmarked⟩
  rw [split]
  exact mem_append_right _ mem_cons_self

theorem Visiting.after (answers : Answers) :
    Visiting policy sinfo (cycle.after policy answers iterator job) := by
  rcases visiting.split queried roundRobin plain returned with
    ⟨v, d, skipped, on, split, excused, -, further⟩
  rw [split] at on
  exact ⟨v + d + 1, further, on.after excused answers iterator⟩

end

theorem Visiting.covered (roundRobin : policy.roundRobin = true)
    (plain : policy.fairShare = false) (visiting : Visiting policy sinfo cycle)
    {answers : Answers} (steady : Steady policy cycle answers)
    (next : nextJob policy cycle.sinfo cycle.iterator = (iterator, none)) :
    Covered policy sinfo cycle := by
  rcases visiting with ⟨v, aligned, on⟩
  have keeps := on.tracked.keeps
  unfold nextJob at next
  rw [if_pos roundRobin] at next
  apply on.covered
  intro job mem
  rcases mem_filterMap.1 mem with ⟨k, range, visited⟩
  rw [mem_range'_1] at range
  have pos : 0 < cycle.sinfo.queues.length := by
    rw [keeps.queues]
    apply Nat.pos_of_ne_zero
    intro none_
    rw [none_] at range
    omega
  have aligned' := (Aligned.congr keeps).2 aligned
  have none_ := roundRobinLoop_spec pos aligned' next
  have first : (cycle.iterator.visited cycle.sinfo.queues.length).toNat = v := by
    rw [aligned'.stands.visited, Int.toNat_natCast]
  have turn := steady.turn roundRobin plain
  rw [first] at turn
  refine on.excused_of_visit plain mem visited (turn ?_ k range.1)
  intro k' late early
  have nothing := none_ (k' - v) (by omega)
  rw [Nat.add_sub_cancel' late] at nothing
  exact nothing

end

/-! ## With fair share -/

section

variable {policy : Policy} {sinfo : ServerInfo F} {cycle : Cycle F} {n index : Nat}
  {iterator : Iterator} {answers : Answers}

/-- How often a queue has been visited. -/
def rows (n v index : Nat) : Nat :=
  v / n + if index < v % n then 1 else 0

theorem rows_succ (pos : 0 < n) (v : Nat) (bound : index < n) :
    rows n (v + 1) index = rows n v index + if index = v % n then 1 else 0 := by
  unfold rows
  rcases succ_div_mod pos v with ⟨last, mod, div⟩ | ⟨inside, mod, div⟩
  · split_ifs <;> omega
  · split_ifs <;> omega

theorem rows_self (n v : Nat) : rows n v (v % n) = v / n := by
  simp [rows]

/-- Every queue comes in a turn over all queues. -/
theorem exists_visit (v : Nat) (bound : index < n) : ∃ e < n, (v + e) % n = index := by
  refine ⟨(index + (n - v % n)) % n, Nat.mod_lt _ (by omega), ?_⟩
  have less := Nat.mod_lt v (show 0 < n by omega)
  rw [Nat.add_mod_mod, ← Nat.mod_add_mod, show v % n + (index + (n - v % n)) = index + n by omega,
    Nat.add_mod_right, Nat.mod_eq_of_lt bound]

/-- A queue has no more jobs that wait than visits that are still to come. -/
structure Shared (policy : Policy) (sinfo : ServerInfo F) (cycle : Cycle F) (v : Nat) : Prop where
  tracked : Tracked policy sinfo cycle
  few : ∀ index < sinfo.queues.length, (jobsAt sinfo index).countP cycle.isWaiting ≤
    (jobsAt sinfo index).length - rows sinfo.queues.length v index

theorem Shared.start (policy : Policy) (sinfo : ServerInfo F) :
    Shared policy sinfo (.start policy sinfo) 0 where
  tracked := .start policy sinfo
  few index _ := by simpa [rows] using countP_le_length

variable [Floating F]

section

variable (queried : Queried sinfo) (fair : policy.fairShare = true)
  (shares : ∀ job ∈ cycle.sinfo.jobs, (cycle.sinfo.jobInfo job).isRunning = false →
    (cycle.sinfo.jobInfo job).canNotRun = false →
    Floating.lt (Floating.ofInt (-1)) (share cycle.sinfo job) = true)
  (pos : 0 < sinfo.queues.length) {v : Nat}

theorem visit_of_fair (fair : policy.fairShare = true) (keeps : Keeps sinfo cycle.sinfo) (v : Nat) :
    visit policy cycle.sinfo v = (jobAt sinfo v).bind fun _ =>
      extractFairshare cycle.sinfo (jobsAt sinfo (v % sinfo.queues.length)) := by
  unfold visit
  dsimp only
  rw [keeps.queues, jobsAt_congr keeps]
  congr 1
  funext job
  exact if_pos fair

include queried fair shares pos

variable (shared : Shared policy sinfo cycle v)
include shared

/-- If a visit chooses no job, no job of the queue waits. -/
theorem Shared.not_waiting (none_ : visit policy cycle.sinfo v = none) :
    ∀ job ∈ jobsAt sinfo (v % sinfo.queues.length), cycle.isWaiting job = false := by
  have bound := Nat.mod_lt v pos
  rw [visit_of_fair fair shared.tracked.keeps] at none_
  cases at_ : jobAt sinfo v with
  | none =>
    have short := getElem?_eq_none_iff.1 at_
    have few := shared.few _ bound
    rw [rows_self, Nat.sub_eq_zero_of_le short, Nat.le_zero, countP_eq_zero] at few
    exact fun job mem => Bool.eq_false_iff.2 (few job mem)
  | some job =>
    rw [at_, Option.bind_some] at none_
    exact shared.tracked.not_waiting_of_none queried
      (fun job mem => queried.mem_jobs.2 ⟨_, bound, mem⟩) shares none_

theorem Shared.skip {d : Nat} (none_ : ∀ e < d, visit policy cycle.sinfo (v + e) = none) :
    Shared policy sinfo cycle (v + d) := by
  induction d with
  | zero => exact shared
  | succ d ih =>
    have before := ih fun e early => none_ e (Nat.lt_succ_of_lt early)
    have idle := before.not_waiting queried fair shares pos (none_ d d.lt_succ_self)
    refine ⟨shared.tracked, fun index bound => ?_⟩
    rw [← Nat.add_assoc, rows_succ pos _ bound]
    split_ifs with here
    · subst here
      rw [countP_eq_zero.2 fun job mem => Bool.eq_false_iff.1 (idle job mem)]
      exact Nat.zero_le _
    · exact before.few index bound

/-- A turn over all queues in which no job is chosen: no job waits. -/
theorem Shared.covered (none_ : ∀ e < sinfo.queues.length, visit policy cycle.sinfo (v + e) = none)
    : Covered policy sinfo cycle := by
  apply shared.tracked.covered
  intro job mem
  rcases queried.mem_jobs.1 mem with ⟨index, bound, here⟩
  rcases exists_visit v bound with ⟨e, within, rfl⟩
  have before := shared.skip queried fair shares pos fun e' early =>
    none_ e' (early.trans within)
  exact before.not_waiting queried fair shares pos (none_ e within) job here

end

theorem Shared.after (shared : Shared policy sinfo cycle v) (queried : Queried sinfo)
    (fair : policy.fairShare = true) (pos : 0 < sinfo.queues.length) {job : JobRef}
    (chosen : visit policy cycle.sinfo v = some job)
    (fresh : ∀ entry ∈ cycle.considered, entry.outcome = .runFailed → entry.job ≠ job)
    (answers : Answers) (iterator : Iterator) :
    Shared policy sinfo (cycle.after policy answers iterator job) (v + 1) := by
  have bound := Nat.mod_lt v pos
  rw [visit_of_fair fair shared.tracked.keeps] at chosen
  rcases Option.bind_eq_some_iff.1 chosen with ⟨visited, at_, extracted⟩
  rcases shared.tracked.isWaiting_of_extracted extracted fresh with ⟨mem, waiting⟩
  constructor
  · exact shared.tracked.after answers iterator (queried.mem_jobs.2 ⟨_, bound, mem⟩)
      (isWaiting_iff.1 waiting).1
  · intro index within
    have few := shared.few index within
    rw [rows_succ pos v within]
    split_ifs with here
    · subst here
      have fewer : (jobsAt sinfo _).countP (cycle.after policy answers iterator job).isWaiting <
          (jobsAt sinfo _).countP cycle.isWaiting := countP_isWaiting_after_lt mem waiting
      omega
    · have le : (jobsAt sinfo index).countP (cycle.after policy answers iterator job).isWaiting ≤
          (jobsAt sinfo index).countP cycle.isWaiting :=
        countP_mono_left fun other _ still => (isWaiting_after still).1
      exact le.trans few

/-- The round robin with fair share. -/
def Sharing (policy : Policy) (sinfo : ServerInfo F) (cycle : Cycle F) : Prop :=
  ∃ v, Aligned sinfo v cycle.iterator ∧ Shared policy sinfo cycle v

variable (queried : Queried sinfo) (roundRobin : policy.roundRobin = true)
  (fair : policy.fairShare = true) (sharing : Sharing policy sinfo cycle)
  (steady : Steady policy cycle answers)
include queried roundRobin fair sharing steady

theorem Sharing.after {job : JobRef}
    (next : nextJob policy cycle.sinfo cycle.iterator = (iterator, some job)) :
    Sharing policy sinfo (cycle.after policy answers iterator job) := by
  rcases sharing with ⟨v, aligned, shared⟩
  have keeps := shared.tracked.keeps
  have byShares : policy.byShares = true := by simp [Policy.byShares, fair, roundRobin]
  have fresh := steady.not_failed byShares next
  rcases nextJob_roundRobin_some roundRobin keeps aligned next with ⟨d, chosen, before, further⟩
  have pos : 0 < sinfo.queues.length := by
    have visited := chosen
    rw [visit_of_fair fair keeps] at visited
    rcases Option.bind_eq_some_iff.1 visited with ⟨_, at_, -⟩
    exact pos_of_jobAt at_
  have skipped := shared.skip queried fair (steady.shares byShares) pos before
  exact ⟨v + d + 1, further, skipped.after queried fair pos chosen fresh answers iterator⟩

theorem Sharing.covered (next : nextJob policy cycle.sinfo cycle.iterator = (iterator, none)) :
    Covered policy sinfo cycle := by
  rcases sharing with ⟨v, aligned, shared⟩
  have keeps := shared.tracked.keeps
  have byShares : policy.byShares = true := by simp [Policy.byShares, fair, roundRobin]
  unfold nextJob at next
  rw [if_pos roundRobin] at next
  by_cases none_ : sinfo.queues.length = 0
  · intro job mem
    rcases queried.mem_jobs.1 mem with ⟨index, bound, -⟩
    omega
  have pos := Nat.pos_of_ne_zero none_
  rw [← keeps.queues] at pos
  have nothing := roundRobinLoop_spec pos ((Aligned.congr keeps).2 aligned) next
  rw [keeps.queues] at pos nothing
  exact shared.covered queried fair (steady.shares byShares) pos nothing

end

end Torque.Scheduler
