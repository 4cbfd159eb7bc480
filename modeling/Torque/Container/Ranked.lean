import Torque.Container.Refinement
import Torque.Transition.Run

/-!
# Job lists by rank

`insert_into_alljobs_by_rank` looks from the back of a job list for the first job
of lower rank, and inserts the new job behind it, or in front of all others.
Nothing is ever appended to such a list, so `last` stays at slot 0; a removal at
the end then does write the link back from slot 0, and the search always starts
at the last job.
-/

namespace Torque.Container

open Torque.Structure Torque.Transition List

universe u

variable {κ : Type u}

/-- What the list reads of a job: `ji_qs.ji_jobid` and `JOB_ATR_qrank`. -/
structure RankedJob (κ : Type u) where
  jobid : κ
  qrank : Int
  deriving DecidableEq, Repr

/-- `PBSE_NONE`, `ALREADY_IN_LIST` and `PBSE_JOBNOTFOUND`. -/
inductive RankCode where
  | none
  | alreadyInList
  | jobNotFound
  deriving DecidableEq, Repr

/-- How the loop over the list ends. -/
inductive RankSearch (κ : Type u) where
  | alreadyInList
  | behind (pjcur : RankedJob κ)
  | exhausted
  deriving DecidableEq, Repr

namespace ItemContainer

variable [DecidableEq κ]

/-- The loop over a reverse iterator, in so many rounds. -/
def searchByRank (c : ItemContainer κ (RankedJob κ)) (pjob : RankedJob κ) :
    Nat → ItemIterator → RankSearch κ
  | 0, _ => .exhausted
  | rounds + 1, iter =>
    match c.getNextItem iter with
    | (none, _) => .exhausted
    | (some pjcur, iter) =>
      if pjob.qrank > pjcur.qrank then .behind pjcur
      else if pjob.jobid = pjcur.jobid then .alreadyInList
      else searchByRank c pjob rounds iter

/-- `insert_into_alljobs_by_rank`; `known` says whether `svr_find_job` finds the
job after the search.  Whether the container inserts the job is not looked at. -/
def insertIntoAlljobsByRank (known granted : Bool) (pjob : RankedJob κ)
    (c : ItemContainer κ (RankedJob κ)) : RankCode × ItemContainer κ (RankedJob κ) :=
  match c.searchByRank pjob (c.num + 1) (c.getIterator true) with
  | .alreadyInList => (.alreadyInList, c)
  | .exhausted =>
    if known then (.none, (c.insertFirst granted pjob pjob.jobid).2) else (.jobNotFound, c)
  | .behind pjcur =>
    if known then
      if (c.find pjcur.jobid).isSome then
        (.none, (c.insertAfter granted pjcur.jobid pjob pjob.jobid).2)
      else (.none, (c.insertFirst granted pjob pjob.jobid).2)
    else (.jobNotFound, c)

end ItemContainer

/-! ## The search -/

section

variable [DecidableEq κ] (pjob : RankedJob κ)

/-- The search over the jobs themselves, from the back. -/
def rankSearch : List (RankedJob κ) → RankSearch κ
  | [] => .exhausted
  | pjcur :: rest =>
    if pjob.qrank > pjcur.qrank then .behind pjcur
    else if pjob.jobid = pjcur.jobid then .alreadyInList
    else rankSearch rest

variable {pjob} {jobs : List (RankedJob κ)}

/-- A job that is listed is found before any of lower rank. -/
theorem rankSearch_listed (sorted : jobs.Pairwise fun a b => b.qrank ≤ a.qrank)
    (listed : pjob ∈ jobs) : rankSearch pjob jobs = .alreadyInList := by
  induction jobs with
  | nil => exact absurd listed not_mem_nil
  | cons pjcur rest ih =>
    obtain ⟨least, sorted⟩ := pairwise_cons.mp sorted
    have rank : pjob.qrank ≤ pjcur.qrank := by
      rcases mem_cons.mp listed with rfl | later
      · exact Int.le_refl _
      · exact least pjob later
    unfold rankSearch
    rw [if_neg (Int.not_lt.mpr rank)]
    split
    · rfl
    · rename_i other
      rcases mem_cons.mp listed with rfl | later
      · exact absurd rfl other
      · exact ih sorted later

omit [DecidableEq κ] in
theorem jobid_not_mem (distinct : ∀ job ∈ jobs, job.jobid = pjob.jobid → job = pjob)
    (unlisted : pjob ∉ jobs) : pjob.jobid ∉ jobs.map RankedJob.jobid := by
  intro mem
  obtain ⟨job, held, same⟩ := mem_map.mp mem
  exact unlisted (distinct job held same ▸ held)

/-- A new job goes behind the last job of lower rank. -/
theorem rankSearch_new (fresh : pjob.jobid ∉ jobs.map RankedJob.jobid) :
    (rankSearch pjob jobs = .exhausted ∧ ∀ job ∈ jobs, pjob.qrank ≤ job.qrank) ∨
      ∃ above pjcur rest, jobs = above ++ pjcur :: rest ∧
        rankSearch pjob jobs = .behind pjcur ∧ pjcur.qrank < pjob.qrank ∧
        ∀ job ∈ above, pjob.qrank ≤ job.qrank := by
  induction jobs with
  | nil => exact Or.inl ⟨rfl, forall_mem_nil _⟩
  | cons pjcur rest ih =>
    rw [map_cons, mem_cons, not_or] at fresh
    unfold rankSearch
    by_cases lower : pjob.qrank > pjcur.qrank
    · rw [if_pos lower]
      exact Or.inr ⟨[], pjcur, rest, rfl, rfl, lower, forall_mem_nil _⟩
    · have rank : pjob.qrank ≤ pjcur.qrank := Int.not_lt.mp lower
      rw [if_neg lower, if_neg fresh.1]
      rcases ih fresh.2 with ⟨ended, all⟩ | ⟨above, found, left, rfl, ended, below, all⟩
      · exact Or.inl ⟨ended, forall_mem_cons.mpr ⟨rank, all⟩⟩
      · exact Or.inr ⟨pjcur :: above, found, left, rfl, ended, below,
          forall_mem_cons.mpr ⟨rank, all⟩⟩

end

namespace ItemContainer

variable {c : ItemContainer κ (RankedJob κ)}

/-- The loop searches the jobs that the iterator meets. -/
theorem searchByRank_collect [DecidableEq κ] (pjob : RankedJob κ) (rounds : Nat)
    (iter : ItemIterator) :
    c.searchByRank pjob rounds iter = rankSearch pjob (c.collect rounds iter) := by
  induction rounds generalizing iter with
  | zero => rfl
  | succ rounds ih =>
    rw [searchByRank, collect]
    rcases c.getNextItem iter with ⟨_ | pjcur, iter⟩
    · rfl
    · dsimp only
      rw [rankSearch, ih]

/-! ## Lists that are only inserted into by rank -/

/-- The container represents the jobs, each under its own id; `last` is slot 0,
and slot 0 leads back to the last job. -/
structure Ranked (c : ItemContainer κ (RankedJob κ)) (order : List Nat)
    (list : List (Item κ (RankedJob κ))) : Prop extends Represents c order list where
  last_eq : c.last = 0
  mirrored : c.prev 0 = order.getLastD 0
  own : ∀ thing ∈ list, thing.id = thing.ptr.jobid
  sorted : (list.map Item.ptr).Pairwise fun a b => a.qrank ≤ b.qrank

theorem ranked_empty : (empty : ItemContainer κ (RankedJob κ)).Ranked [] [] where
  toRepresents := appended_empty.toRepresents
  last_eq := rfl
  mirrored := rfl
  own := forall_mem_nil _
  sorted := List.Pairwise.nil

namespace Ranked

open Listing

variable [DecidableEq κ] {order : List Nat} {list front back : List (Item κ (RankedJob κ))}
  {there : Item κ (RankedJob κ)} {pjob : RankedJob κ} {granted : Bool}

/-- The loop searches the jobs from the back, and ends. -/
theorem searchByRank_eq (rep : c.Ranked order list) {rounds : Nat} (enough : c.num < rounds) :
    c.searchByRank pjob rounds (c.getIterator true) =
      rankSearch pjob (list.map Item.ptr).reverse := by
  rw [searchByRank_collect]
  refine congrArg (rankSearch pjob) (rep.iterate_reverse (fun _ => rep.mirrored) ?_)
  rw [rep.length_list, ← rep.num]
  exact enough

/-- A job of least rank is inserted in front. -/
theorem insertFirst (rep : c.Ranked order list) (fresh : c.map pjob.jobid = 0)
    (least : ∀ job ∈ list.map Item.ptr, pjob.qrank ≤ job.qrank)
    (able : c.canInsert granted = true) :
    ∃ order', (c.insertFirst granted pjob pjob.jobid).2.Ranked order'
      (⟨pjob.jobid, pjob⟩ :: list) := by
  have closed : order = [] → c.prev 0 = 0 := by
    rintro rfl
    exact rep.mirrored
  have unknown : c.map (Item.mk pjob.jobid pjob).id = 0 := fresh
  obtain ⟨i, c', done, represents, last, prev⟩ :=
    rep.toRepresents.insertThingBefore closed unknown able
  have result : (c.insertFirst granted pjob pjob.jobid).2 = c' := by
    exact congrArg Prod.snd done
  refine ⟨i :: order, result ▸ ⟨represents, last.trans rep.last_eq, ?_, ?_, ?_⟩⟩
  · rw [prev, getLastD_cons]
    cases order with
    | nil => exact if_pos rfl
    | cons a order =>
      rw [if_neg (cons_ne_nil a order), rep.mirrored, getLastD_cons, getLastD_cons]
  · exact forall_mem_cons.mpr ⟨rfl, rep.own⟩
  · exact pairwise_cons.mpr ⟨least, rep.sorted⟩

/-- A job is inserted behind one of lower rank. -/
theorem insertAfter (rep : c.Ranked order (front ++ there :: back))
    (fresh : c.map pjob.jobid = 0) (above : there.ptr.qrank < pjob.qrank)
    (least : ∀ thing ∈ back, pjob.qrank ≤ thing.ptr.qrank)
    (able : c.canInsert granted = true) :
    ∃ order', (c.insertAfter granted there.id pjob pjob.jobid).2.Ranked order'
      (front ++ there :: ⟨pjob.jobid, pjob⟩ :: back) := by
  obtain ⟨before, index, after, rfl, cut⟩ := rep.exists_order
  have here : c.map there.id = index := rep.map_eq cut
  have nonzero : index ≠ 0 := rep.ne_zero_of_mem (by simp)
  have unknown : c.map (Item.mk pjob.jobid pjob).id = 0 := fresh
  obtain ⟨i, c', done, represents, last, prev⟩ :=
    rep.toRepresents.insertThingAfter cut unknown able
  have result : (c.insertAfter granted there.id pjob pjob.jobid).2 = c' := by
    unfold ItemContainer.insertAfter
    simp only [here, alwaysEmptyIndex, nonzero, if_false, done]
  refine ⟨before ++ index :: i :: after, result ▸ ⟨represents, ?_, ?_, ?_, ?_⟩⟩
  · rw [last, rep.last_eq, if_neg (Ne.symm nonzero)]
  · rw [prev, getLastD_append_cons, getLastD_cons]
    cases after with
    | nil => exact if_pos rfl
    | cons a after =>
      rw [if_neg (cons_ne_nil a after), rep.mirrored, getLastD_append_cons,
        getLastD_cons, getLastD_cons]
  · have own := rep.own
    simp only [forall_mem_append, forall_mem_cons] at own ⊢
    exact ⟨own.1, own.2.1, trivial, own.2.2⟩
  · have sorted := rep.sorted
    simp only [map_append, map_cons, pairwise_append, pairwise_cons,
      mem_cons, forall_eq_or_imp, forall_mem_map] at sorted ⊢
    obtain ⟨fronts, ⟨thereLe, backs⟩, across⟩ := sorted
    refine ⟨fronts, ⟨⟨Int.le_of_lt above, thereLe⟩, least, backs⟩, ?_⟩
    intro thing mem
    have low := (across thing mem).1
    exact ⟨low, Int.le_trans low (Int.le_of_lt above), (across thing mem).2⟩

variable (rep : c.Ranked order list)
include rep

theorem remove (id : κ) : ∃ order', (c.remove id).2.Ranked order' (erase id list) := by
  by_cases unknown : c.map id = 0
  · have called : c.remove id = (false, c) := if_pos unknown
    have unlisted := rep.map_eq_zero_iff.mp unknown
    have same : erase id list = list := by
      unfold erase
      rw [filter_eq_self]
      intro thing mem
      have other : thing.id ≠ id := fun same => unlisted (mem_map.mpr ⟨thing, mem, same⟩)
      simpa using other
    rw [called, same]
    exact ⟨order, rep⟩
  · obtain ⟨before, after, front, ptr, back, placed, rfl, cut⟩ := rep.exists_split unknown
    rw [placed] at rep
    have notLast : c.last ≠ c.map id := rep.last_eq ▸ Ne.symm unknown
    have called : c.remove id = (true, c.removed (c.map id)) :=
      (if_neg unknown).trans (rep.removeThingFromIndex_eq cut)
    have erased := erase_middle rep.ids_nodup
    have fewer : (front ++ back).Sublist (front ++ ⟨id, ptr⟩ :: back) :=
      (sublist_cons_self _ back).append_left front
    rw [called, show erase id (front ++ ⟨id, ptr⟩ :: back) = front ++ back from erased]
    refine ⟨before ++ after, rep.toRepresents.removed cut (fun last => absurd last notLast),
      ?_, ?_, ?_, ?_⟩
    · rw [rep.toRepresents.last_removed cut, if_neg notLast]
      exact rep.last_eq
    · rw [rep.toRepresents.prev_zero_removed cut]
      cases after with
      | nil => rw [if_pos ⟨notLast, rfl⟩, append_nil]
      | cons a after =>
        rw [if_neg fun both => cons_ne_nil a after both.2, rep.mirrored,
          getLastD_append_cons, getLastD_append_cons, getLastD_cons]
    · exact fun thing mem => rep.own thing (fewer.subset mem)
    · exact rep.sorted.sublist (fewer.map Item.ptr)

variable (known granted : Bool)

theorem insertIntoAlljobsByRank_listed (listed : pjob ∈ list.map Item.ptr) :
    (c.insertIntoAlljobsByRank known granted pjob) = (.alreadyInList, c) := by
  have descending := pairwise_reverse.mpr rep.sorted
  have found := rankSearch_listed descending (mem_reverse.mpr listed)
  unfold insertIntoAlljobsByRank
  rw [rep.searchByRank_eq (Nat.lt_succ_self _), found]

omit rep in
/-- Nothing is inserted if the job is not known or there is no memory for it. -/
theorem insertIntoAlljobsByRank_unable (unable : ¬(known && c.canInsert granted) = true) :
    (c.insertIntoAlljobsByRank known granted pjob).2 = c := by
  unfold insertIntoAlljobsByRank
  cases known with
  | false => split <;> rfl
  | true =>
    have full : c.checkAndResize granted = none :=
      checkAndResize_eq_none_iff.mpr (Bool.not_eq_true _ ▸ unable)
    have first : (c.insertFirst granted pjob pjob.jobid).2 = c := by
      unfold ItemContainer.insertFirst insertThingBefore
      rw [full]
    split
    · rfl
    · exact first
    · next pjcur _ =>
      have after : (c.insertAfter granted pjcur.jobid pjob pjob.jobid).2 = c := by
        unfold ItemContainer.insertAfter insertThingAfter
        simp only [full]
        split <;> rfl
      simp only [if_true]
      split
      · exact after
      · exact first

theorem insertIntoAlljobsByRank_unknown
    (fresh : pjob.jobid ∉ (list.map Item.ptr).map RankedJob.jobid) :
    c.insertIntoAlljobsByRank false granted pjob = (.jobNotFound, c) := by
  rw [← mem_reverse, ← map_reverse] at fresh
  unfold insertIntoAlljobsByRank
  rw [rep.searchByRank_eq (Nat.lt_succ_self _)]
  rcases rankSearch_new fresh with ⟨ended, -⟩ | ⟨_, _, _, -, ended, -⟩ <;> rw [ended] <;> rfl

/-- A new job is inserted behind the last one of lower rank. -/
theorem insertIntoAlljobsByRank_able (fresh : pjob.jobid ∉ (list.map Item.ptr).map RankedJob.jobid)
    (able : c.canInsert granted = true) :
    (c.insertIntoAlljobsByRank true granted pjob).1 = .none ∧
      ∃ order' front back, list = front ++ back ∧
        (c.insertIntoAlljobsByRank true granted pjob).2.Ranked order'
          (front ++ ⟨pjob.jobid, pjob⟩ :: back) ∧
        (∀ thing ∈ front.getLast?, thing.ptr.qrank < pjob.qrank) ∧
        ∀ thing ∈ back, pjob.qrank ≤ thing.ptr.qrank := by
  have unknown : c.map pjob.jobid = 0 := by
    rw [rep.map_eq_zero_iff]
    intro listed
    obtain ⟨thing, mem, same⟩ := mem_map.mp listed
    apply fresh
    rw [map_map]
    exact mem_map.mpr ⟨thing, mem, (rep.own thing mem).symm.trans same⟩
  rw [← mem_reverse, ← map_reverse] at fresh
  unfold insertIntoAlljobsByRank
  rw [rep.searchByRank_eq (Nat.lt_succ_self _)]
  rcases rankSearch_new fresh with ⟨ended, least⟩ | ⟨above, pjcur, rest, jobs, ended, below, least⟩
  · rw [ended]
    obtain ⟨order', ranked⟩ :=
      rep.insertFirst unknown (fun job mem => least job (mem_reverse.mpr mem)) able
    refine ⟨rfl, order', [], list, rfl, ranked, nofun, fun thing mem => least _ ?_⟩
    exact mem_reverse.mpr (mem_map_of_mem mem)
  · -- the job that was found, in the list
    rw [ended]
    have jobs := congrArg reverse jobs
    rw [reverse_reverse, reverse_append, reverse_cons, append_assoc, singleton_append] at jobs
    obtain ⟨front, rest', rfl, -, split⟩ := map_eq_append_iff.mp jobs
    obtain ⟨there, back, rfl, rfl, backs⟩ := map_eq_cons_iff.mp split
    have least' : ∀ thing ∈ back, pjob.qrank ≤ thing.ptr.qrank := by
      intro thing mem
      apply least
      rw [← mem_reverse, ← backs]
      exact mem_map_of_mem mem
    have own : there.id = there.ptr.jobid := rep.own there (by simp)
    have found : (c.find there.ptr.jobid).isSome := by
      rw [← own, rep.find_listed]
      rfl
    simp only [found, if_true]
    rw [← own]
    obtain ⟨order', ranked⟩ := rep.insertAfter unknown below least' able
    refine ⟨trivial, order', front ++ [there], back, by simp, by simpa using ranked, ?_, least'⟩
    simpa using below

/-- A new job is inserted if it is known and there is memory for it. -/
theorem insertIntoAlljobsByRank_new (fresh : pjob.jobid ∉ (list.map Item.ptr).map RankedJob.jobid) :
    ∃ order' list', (c.insertIntoAlljobsByRank known granted pjob).2.Ranked order' list' ∧
      (list'.map Item.ptr).Perm
        (if known && c.canInsert granted then pjob :: list.map Item.ptr
        else list.map Item.ptr) := by
  by_cases able : (known && c.canInsert granted) = true
  · rw [if_pos able]
    obtain ⟨rfl, able⟩ := Bool.and_eq_true_iff.mp able
    obtain ⟨-, order', front, back, rfl, ranked, -⟩ :=
      rep.insertIntoAlljobsByRank_able granted fresh able
    have moved : (front ++ ⟨pjob.jobid, pjob⟩ :: back).Perm (⟨pjob.jobid, pjob⟩ :: (front ++ back)) :=
      perm_middle
    exact ⟨order', _, ranked, moved.map Item.ptr⟩
  · rw [if_neg able, insertIntoAlljobsByRank_unable known granted able]
    exact ⟨order, list, rep, .refl _⟩

end Ranked

/-! ## Runs -/

/-- A call of `insert_into_alljobs_by_rank`, or the removal of a job. -/
inductive RankEvent (κ : Type u) where
  | insert (pjob : RankedJob κ) (known granted : Bool)
  | remove (jobid : κ)
  deriving DecidableEq

variable [DecidableEq κ]

section

variable (state : ItemContainer κ (RankedJob κ) × List (RankedJob κ))

/-- The list, and the jobs that were inserted and not removed since.  A job is
inserted if it is not listed, known to the server, and there is memory for it. -/
def rankStep :
    RankEvent κ → ItemContainer κ (RankedJob κ) × List (RankedJob κ)
  | .insert pjob known granted =>
    ((state.1.insertIntoAlljobsByRank known granted pjob).2,
      if pjob ∉ state.2 ∧ (known && state.1.canInsert granted) then pjob :: state.2 else state.2)
  | .remove jobid =>
    ((state.1.remove jobid).2, state.2.filter fun job => job.jobid ≠ jobid)

/-- The ids of different jobs are different. -/
def DistinctIds : RankEvent κ → Prop
  | .insert pjob _ _ => ∀ job ∈ state.2, job.jobid = pjob.jobid → job = pjob
  | .remove _ => True

end

instance (state : ItemContainer κ (RankedJob κ) × List (RankedJob κ)) (event : RankEvent κ) :
    Decidable (DistinctIds state event) := by
  cases event <;> unfold DistinctIds <;> infer_instance

/-- The container holds exactly the jobs that count as inserted, by rank. -/
def RankInvariant (state : ItemContainer κ (RankedJob κ) × List (RankedJob κ)) : Prop :=
  ∃ order list, state.1.Ranked order list ∧ (list.map Item.ptr).Perm state.2

theorem rankInvariant_rankStep {state : ItemContainer κ (RankedJob κ) × List (RankedJob κ)}
    (holds : RankInvariant state) {event : RankEvent κ} (distinct : DistinctIds state event) :
    RankInvariant (rankStep state event) := by
  obtain ⟨order, list, rep, same⟩ := holds
  cases event with
  | insert pjob known granted =>
    dsimp only [rankStep]
    by_cases listed : pjob ∈ state.2
    · rw [if_neg fun both => both.1 listed,
        rep.insertIntoAlljobsByRank_listed known granted (same.mem_iff.mpr listed)]
      exact ⟨order, list, rep, same⟩
    · have fresh : pjob.jobid ∉ (list.map Item.ptr).map RankedJob.jobid :=
        mt (same.map RankedJob.jobid).mem_iff.mp (jobid_not_mem distinct listed)
      obtain ⟨order', list', ranked, perm⟩ :=
        rep.insertIntoAlljobsByRank_new known granted fresh
      refine ⟨order', list', ranked, perm.trans ?_⟩
      by_cases done : (known && state.1.canInsert granted) = true
      · rw [if_pos done, if_pos ⟨listed, done⟩]
        exact same.cons pjob
      · rw [if_neg done, if_neg fun both => done both.2]
        exact same
  | remove jobid =>
    obtain ⟨order', ranked⟩ := rep.remove jobid
    refine ⟨order', _, ranked, ?_⟩
    have erased : (Listing.erase jobid list).map Item.ptr =
        (list.map Item.ptr).filter fun job => job.jobid ≠ jobid := by
      rw [filter_map]
      apply congrArg
      apply filter_congr
      intro thing mem
      rw [Function.comp_apply, rep.own thing mem]
    rw [erased]
    exact same.filter _

/-- Whatever is inserted and removed, a loop over the list meets exactly the jobs
that were inserted and not removed, in the order of their ranks. -/
theorem alljobs_sorted_by_rank (events : List (RankEvent κ))
    (distinct : Admissible rankStep DistinctIds (empty, []) events) :
    ∃ jobs : List (RankedJob κ),
      (∀ rounds, (run rankStep (empty, []) events).1.count < rounds →
        (run rankStep (empty, []) events).1.iterate false rounds = jobs) ∧
      jobs.Pairwise (fun a b => a.qrank ≤ b.qrank) ∧
      jobs.Perm (run rankStep (empty, []) events).2 := by
  have initial : RankInvariant ((empty : ItemContainer κ (RankedJob κ)), []) :=
    ⟨[], [], ranked_empty, .refl _⟩
  obtain ⟨order, list, rep, same⟩ : RankInvariant (run rankStep (empty, []) events) :=
    invariant RankInvariant initial (fun _ _ holds ok => rankInvariant_rankStep holds ok) distinct
  refine ⟨list.map Item.ptr, ?_, rep.sorted, same⟩
  intro rounds enough
  apply rep.iterate_forward
  rw [rep.length_list, ← rep.num]
  exact enough

/-- Three jobs, of which the last one is removed before the third comes. -/
theorem alljobs_sorted_by_rank_three :
    Admissible rankStep DistinctIds ((empty : ItemContainer Nat (RankedJob Nat)), [])
        [.insert ⟨1, 5⟩ true true, .insert ⟨2, 7⟩ true true, .remove 2,
          .insert ⟨3, 6⟩ true true] ∧
      ∃ jobs : List (RankedJob Nat),
        (∀ rounds, (run rankStep ((empty : ItemContainer Nat (RankedJob Nat)), [])
            [.insert ⟨1, 5⟩ true true, .insert ⟨2, 7⟩ true true, .remove 2,
              .insert ⟨3, 6⟩ true true]).1.count < rounds →
          (run rankStep ((empty : ItemContainer Nat (RankedJob Nat)), [])
            [.insert ⟨1, 5⟩ true true, .insert ⟨2, 7⟩ true true, .remove 2,
              .insert ⟨3, 6⟩ true true]).1.iterate false rounds = jobs) ∧
        jobs.Pairwise (fun a b => a.qrank ≤ b.qrank) ∧
        jobs.Perm (run rankStep ((empty : ItemContainer Nat (RankedJob Nat)), [])
          [.insert ⟨1, 5⟩ true true, .insert ⟨2, 7⟩ true true, .remove 2,
            .insert ⟨3, 6⟩ true true]).2 :=
  ⟨by decide +kernel, alljobs_sorted_by_rank _ (by decide +kernel)⟩

end ItemContainer

end Torque.Container
