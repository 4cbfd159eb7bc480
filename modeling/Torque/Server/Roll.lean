import Torque.Server.Types
import Torque.Structure.Headcount

/-!
# The roll of a server

What the tables of queued jobs depend on: the lists of the queues, the states of the jobs, and
the two bits of a job that say in which tables it is counted.  `Right` says that the tables and
the bits are those of the jobs in queues that have not completed.  It is kept by what happens to
a job, one thing at a time: it enters a queue, leaves it, completes, or changes its state
otherwise.
-/

namespace Torque.Server

open Torque.Structure Function List

/-! ## What the tables depend on -/

/-- The lists of the queues, the tables, and what they are about in the jobs. -/
structure Roll where
  user : Name → Name
  rank : Name → Int
  template : Name → Bool
  state : Name → JobState
  hdr : Name → Option Name
  /-- the two bits of a job -/
  inQueue : Name → Bool
  inServer : Name → Bool
  list : Name → List Name
  table : Name → Name → Nat
  users : Name → Nat

namespace Roll

section

variable (roll : Roll) (id : Name) (state : JobState) (hdr : Option Name)

/-- The fields of a job. -/
def putJob (inQueue inServer : Bool) : Roll :=
  { roll with
    state := update roll.state id state
    hdr := update roll.hdr id hdr
    inQueue := update roll.inQueue id inQueue
    inServer := update roll.inServer id inServer }

/-- The list and the table of a queue. -/
def putQueue (roll : Roll) (name : Name) (list : List Name) (table : Name → Nat) : Roll :=
  { roll with
    list := update roll.list name list
    table := update roll.table name table }

/-- The table of the server. -/
def putUsers (roll : Roll) (users : Name → Nat) : Roll :=
  { roll with users := users }

/-- A job points to a queue. -/
def point : Roll :=
  { roll with hdr := update roll.hdr id hdr }

/-- The list of a queue changes. -/
def relist (roll : Roll) (name : Name) (list : List Name) : Roll :=
  { roll with list := update roll.list name list }

/-- The state of a job. -/
def putState : Roll :=
  { roll with state := update roll.state id state }

/-- The count of one user in a table changes. -/
def recount (table : Name → Nat) (user : Name) (change : Nat → Nat) : Name → Nat :=
  update table user (change (table user))

/-- The counts of a job change in both tables, and its bits with them. -/
def mark (name : Name) (bit : Bool) (change : Nat → Nat) : Roll :=
  { roll with
    inQueue := update roll.inQueue id bit
    inServer := update roll.inServer id bit
    table := update roll.table name (recount (roll.table name) (roll.user id) change)
    users := recount roll.users (roll.user id) change }

/-- A job is counted. -/
def count (name : Name) : Roll :=
  roll.mark id name true (· + 1)

/-- A job is no longer counted. -/
def uncount (name : Name) : Roll :=
  roll.mark id name false (· - 1)

/-- The job is in a queue and has not completed. -/
def Active : Prop :=
  roll.state id ≠ .complete ∧ ∃ name, id ∈ roll.list name

end

/-- The lists have jobs only, each once and by rank.  A job that has not completed points to the
queue that lists it.  The bits and tables are those of the jobs in queues that have not
completed. -/
structure Right (roll : Roll) : Prop where
  sorted : ∀ name, (roll.list name).Pairwise fun a b => roll.rank a ≤ roll.rank b
  nodup : ∀ name, (roll.list name).Nodup
  jobs : ∀ name, ∀ id ∈ roll.list name, roll.template id = false
  hdr : ∀ name, ∀ id ∈ roll.list name, roll.state id ≠ .complete → roll.hdr id = some name
  inQueue : ∀ id, roll.inQueue id = true ↔ roll.Active id
  inServer : ∀ id, roll.inServer id = true ↔ roll.Active id
  table : ∀ name, Headcount (roll.table name) roll.user
    {id | id ∈ roll.list name ∧ roll.state id ≠ .complete}
  users : Headcount roll.users roll.user {id | roll.Active id}

/-! ### Changes of single fields -/

section

variable (roll : Roll) (id name : Name)

theorem putJob_point (hdr : Option Name) :
    roll.putJob id (roll.state id) hdr (roll.inQueue id) (roll.inServer id) =
      roll.point id hdr := by
  unfold putJob point
  simp only [update_eq_self]

theorem putJob_putState (state : JobState) :
    roll.putJob id state (roll.hdr id) (roll.inQueue id) (roll.inServer id) =
      roll.putState id state := by
  unfold putJob putState
  simp only [update_eq_self]

theorem putJob_self :
    roll.putJob id (roll.state id) (roll.hdr id) (roll.inQueue id) (roll.inServer id) = roll := by
  unfold putJob
  simp only [update_eq_self]

theorem putJob_mark (bit : Bool) (change : Nat → Nat) :
    ((roll.putJob id (roll.state id) (roll.hdr id) bit bit).putQueue name (roll.list name)
      (recount (roll.table name) (roll.user id) change)).putUsers
        (recount roll.users (roll.user id) change) = roll.mark id name bit change := by
  unfold putJob putQueue putUsers mark
  simp only [update_eq_self]

theorem putQueue_relist (list : List Name) :
    roll.putQueue name list (roll.table name) = roll.relist name list := by
  unfold putQueue relist
  simp only [update_eq_self]

theorem relist_self : roll.relist name (roll.list name) = roll := by
  unfold relist
  simp only [update_eq_self]

end

/-! ### Lists -/

section

variable {lists : Name → List Name} {id name other at_ : Name} {list : List Name}

theorem mem_update_insert (perm : list.Perm (id :: lists name)) :
    other ∈ update lists name list at_ ↔ other ∈ lists at_ ∨ other = id ∧ at_ = name := by
  by_cases here : at_ = name
  · subst here
    rw [update_self, perm.mem_iff, mem_cons, or_comm]
    simp
  · simp [here]

theorem mem_update_erase (nodup : (lists name).Nodup) :
    other ∈ update lists name ((lists name).erase id) at_ ↔
      other ∈ lists at_ ∧ ¬(other = id ∧ at_ = name) := by
  by_cases here : at_ = name
  · subst here
    rw [update_self, nodup.mem_erase_iff, and_comm]
    simp
  · simp [here]

end

namespace Right

variable {roll : Roll} {id name : Name} {list : List Name}

theorem active_iff : roll.Active id ↔ ∃ name, id ∈ roll.list name ∧ roll.state id ≠ .complete := by
  rw [exists_and_right]
  exact and_comm

theorem unique {other : Name} (right : roll.Right) (active : roll.state id ≠ .complete)
    (first : id ∈ roll.list name) (second : id ∈ roll.list other) : other = name := by
  have same := (right.hdr other id second active).symm.trans (right.hdr name id first active)
  exact Option.some.inj same

/-- A job that is not active may point to any queue. -/
theorem point {hdr : Option Name} (right : roll.Right)
    (kept : roll.Active id → hdr = roll.hdr id) : (roll.point id hdr).Right :=
  { right with
    hdr := by
      intro name other mem active
      by_cases same : other = id
      · subst same
        refine (update_self ..).trans ?_
        rw [kept ⟨active, name, mem⟩]
        exact right.hdr name other mem active
      · exact (update_of_ne same ..).trans (right.hdr name other mem active) }

section

variable (right : roll.Right)

include right

theorem sorted_relist (sorted : list.Pairwise fun a b => roll.rank a ≤ roll.rank b) (at_ : Name) :
    (update roll.list name list at_).Pairwise fun a b => roll.rank a ≤ roll.rank b :=
  (forall_update_iff roll.list fun _ list => list.Pairwise _).2
    ⟨sorted, fun other _ => right.sorted other⟩ at_

theorem nodup_relist (nodup : list.Nodup) (at_ : Name) : (update roll.list name list at_).Nodup :=
  (forall_update_iff roll.list fun _ list => list.Nodup).2
    ⟨nodup, fun other _ => right.nodup other⟩ at_

/-- Lists and states change, but not for the jobs that have not completed. -/
theorem restate {states : Name → JobState} {lists : Name → List Name}
    (sorted : ∀ at_, (lists at_).Pairwise fun a b => roll.rank a ≤ roll.rank b)
    (nodup : ∀ at_, (lists at_).Nodup)
    (jobs : ∀ at_, ∀ other ∈ lists at_, roll.template other = false)
    (same : ∀ at_ other, (other ∈ lists at_ ∧ states other ≠ .complete) ↔
      (other ∈ roll.list at_ ∧ roll.state other ≠ .complete)) :
    Right { roll with state := states, list := lists } := by
  have actives : ∀ other,
      Active { roll with state := states, list := lists } other ↔ roll.Active other := by
    intro other
    rw [active_iff, active_iff]
    exact exists_congr fun at_ => same at_ other
  exact
    { sorted := sorted
      nodup := nodup
      jobs := jobs
      hdr := by
        intro at_ other mem active
        have before := (same at_ other).mp ⟨mem, active⟩
        exact right.hdr at_ other before.1 before.2
      inQueue := fun other => (right.inQueue other).trans (actives other).symm
      inServer := fun other => (right.inServer other).trans (actives other).symm
      table := fun at_ => (right.table at_).congr (Set.ext (same at_))
      users := right.users.congr (Set.ext actives) }

/-- A list changes, but has the same jobs that have not completed. -/
theorem relist (sorted : list.Pairwise fun a b => roll.rank a ≤ roll.rank b)
    (nodup : list.Nodup) (jobs : ∀ other ∈ list, roll.template other = false)
    (kept : ∀ other, roll.state other ≠ .complete → (other ∈ list ↔ other ∈ roll.list name)) :
    (roll.relist name list).Right := by
  apply right.restate (right.sorted_relist sorted) (right.nodup_relist nodup)
  · apply (forall_update_iff roll.list fun _ list =>
      ∀ other ∈ list, roll.template other = false).2
    exact ⟨jobs, fun at_ _ => right.jobs at_⟩
  · intro at_ other
    refine and_congr_left fun active => ?_
    by_cases here : at_ = name
    · rw [here, update_self, kept other active]
    · rw [update_of_ne here]

/-- A job that has completed leaves a queue. -/
theorem delist (complete : roll.state id = .complete) :
    (roll.relist name ((roll.list name).erase id)).Right := by
  apply right.relist
  · exact (right.sorted name).sublist erase_sublist
  · exact (right.nodup name).erase id
  · intro other mem
    exact right.jobs name other (mem_of_mem_erase mem)
  · intro other active
    rw [(right.nodup name).mem_erase_iff, and_iff_right]
    rintro rfl
    exact active complete

end

section

variable (right : roll.Right) (fresh : id ∉ roll.list name)
  (perm : list.Perm (id :: roll.list name))
  (sorted : list.Pairwise fun a b => roll.rank a ≤ roll.rank b)

include right fresh perm in
theorem nodup_enter : list.Nodup :=
  perm.nodup_iff.mpr (nodup_cons.mpr ⟨fresh, right.nodup name⟩)

include right fresh perm sorted

/-- A job that has completed enters a queue. -/
theorem enlist (complete : roll.state id = .complete) (job : roll.template id = false) :
    (roll.relist name list).Right := by
  apply right.relist sorted (right.nodup_enter fresh perm)
  · intro other mem
    rcases mem_cons.mp (perm.mem_iff.mp mem) with rfl | mem
    · exact job
    · exact right.jobs name other mem
  · intro other active
    rw [perm.mem_iff, mem_cons, or_iff_right]
    rintro rfl
    exact active complete

/-- A job that has not completed enters a queue, and is counted. -/
theorem enter (active : roll.state id ≠ .complete) (unlisted : ∀ at_, id ∉ roll.list at_)
    (job : roll.template id = false) :
    (((roll.point id (some name)).relist name list).count id name).Right := by
  have actives : ∀ other,
      (((roll.point id (some name)).relist name list).count id name).Active other ↔
        other = id ∨ roll.Active other := by
    intro other
    constructor
    · rintro ⟨isActive, at_, mem⟩
      rcases (mem_update_insert perm).mp mem with mem | ⟨same, _⟩
      · exact Or.inr ⟨isActive, at_, mem⟩
      · exact Or.inl same
    · rintro (rfl | ⟨isActive, at_, mem⟩)
      · exact ⟨active, name, (mem_update_insert perm).mpr (Or.inr ⟨rfl, rfl⟩)⟩
      · exact ⟨isActive, at_, (mem_update_insert perm).mpr (Or.inl mem)⟩
  have bits : ∀ bit : Name → Bool, (∀ other, bit other = true ↔ roll.Active other) →
      ∀ other, update bit id true other = true ↔ other = id ∨ roll.Active other := by
    intro bit isBit other
    by_cases same : other = id
    · subst same
      simp
    · rw [update_of_ne same, isBit, or_iff_right same]
  exact
    { sorted := right.sorted_relist sorted
      nodup := right.nodup_relist (right.nodup_enter fresh perm)
      jobs := by
        intro at_ other mem
        rcases (mem_update_insert perm).mp mem with before | ⟨rfl, _⟩
        · exact right.jobs at_ other before
        · exact job
      hdr := by
        intro at_ other mem isActive
        rcases (mem_update_insert perm).mp mem with before | ⟨rfl, rfl⟩
        · have apart : other ≠ id := by
            rintro rfl
            exact unlisted at_ before
          exact (update_of_ne apart ..).trans (right.hdr at_ other before isActive)
        · exact update_self ..
      inQueue := fun other => (bits roll.inQueue right.inQueue other).trans (actives other).symm
      inServer := fun other => (bits roll.inServer right.inServer other).trans (actives other).symm
      table := by
        intro at_
        change Headcount (update roll.table name _ at_) roll.user
          {other | other ∈ update roll.list name list at_ ∧ roll.state other ≠ .complete}
        by_cases here : at_ = name
        · subst here
          rw [update_self, update_self]
          refine ((right.table at_).insert fun mem => fresh mem.1).congr (Set.ext fun other => ?_)
          constructor
          · rintro ⟨mem, isActive⟩
            rcases mem_cons.mp (perm.mem_iff.mp mem) with same | mem
            · exact Or.inl same
            · exact Or.inr ⟨mem, isActive⟩
          · rintro (rfl | ⟨mem, isActive⟩)
            · exact ⟨perm.mem_iff.mpr mem_cons_self, active⟩
            · exact ⟨perm.mem_iff.mpr (mem_cons_of_mem _ mem), isActive⟩
        · rw [update_of_ne here, update_of_ne here]
          exact right.table at_
      users := by
        refine (right.users.insert fun isActive => ?_).congr (Set.ext actives)
        obtain ⟨_, at_, mem⟩ := isActive
        exact unlisted at_ mem }

end

section

variable (right : roll.Right) (mem : id ∈ roll.list name) (active : roll.state id ≠ .complete)

include right mem active

/-- A job that was active is no longer so, and is no longer counted; for the rest nothing
changes. -/
theorem uncount {next : Roll} (user : next.user = roll.user)
    (inQueue : next.inQueue = (roll.uncount id name).inQueue)
    (inServer : next.inServer = (roll.uncount id name).inServer)
    (table : next.table = (roll.uncount id name).table)
    (users : next.users = (roll.uncount id name).users)
    (sorted : ∀ at_, (next.list at_).Pairwise fun a b => next.rank a ≤ next.rank b)
    (nodup : ∀ at_, (next.list at_).Nodup)
    (jobs : ∀ at_, ∀ other ∈ next.list at_, next.template other = false)
    (hdr : ∀ other, other ≠ id → next.hdr other = roll.hdr other)
    (left : ∀ at_ other, (other ∈ next.list at_ ∧ next.state other ≠ .complete) ↔
      (other ∈ roll.list at_ ∧ roll.state other ≠ .complete) ∧ other ≠ id) : next.Right := by
  have actives : ∀ other, next.Active other ↔ roll.Active other ∧ other ≠ id := by
    intro other
    rw [active_iff, active_iff, ← exists_and_right]
    exact exists_congr fun at_ => left at_ other
  have bits : ∀ bit : Name → Bool, (∀ other, bit other = true ↔ roll.Active other) →
      ∀ other, update bit id false other = true ↔ next.Active other := by
    intro bit isBit other
    rw [actives]
    by_cases same : other = id
    · subst same
      simp
    · rw [update_of_ne same, isBit, and_iff_left same]
  exact
    { sorted := sorted
      nodup := nodup
      jobs := jobs
      hdr := by
        intro at_ other listed isActive
        obtain ⟨⟨before, wasActive⟩, apart⟩ := (left at_ other).mp ⟨listed, isActive⟩
        exact (hdr other apart).trans (right.hdr at_ other before wasActive)
      inQueue := by
        rw [inQueue]
        exact bits roll.inQueue right.inQueue
      inServer := by
        rw [inServer]
        exact bits roll.inServer right.inServer
      table := by
        intro at_
        rw [table, user]
        change Headcount (update roll.table name _ at_) roll.user _
        by_cases here : at_ = name
        · subst here
          rw [update_self]
          exact ((right.table at_).remove ⟨mem, active⟩).congr (Set.ext (left at_))
        · rw [update_of_ne here]
          refine (right.table at_).congr (Set.ext fun other => (left at_ other).trans ?_)
          refine and_iff_left_of_imp ?_
          rintro ⟨listed, _⟩ rfl
          exact here (right.unique active mem listed)
      users := by
        rw [users, user]
        exact (right.users.remove ⟨active, name, mem⟩).congr (Set.ext actives) }

/-- A job that has not completed leaves its queue. -/
theorem leave :
    (((roll.uncount id name).relist name ((roll.list name).erase id)).point id none).Right := by
  have nodup := right.nodup name
  refine right.uncount mem active rfl rfl rfl rfl rfl ?_ ?_ ?_ ?_ ?_
  · exact right.sorted_relist ((right.sorted name).sublist erase_sublist)
  · exact right.nodup_relist (nodup.erase id)
  · intro at_ other listed
    exact right.jobs at_ other ((mem_update_erase nodup).mp listed).1
  · intro other apart
    exact update_of_ne apart ..
  · intro at_ other
    rw [and_right_comm]
    refine and_congr_left fun _ => (mem_update_erase nodup).trans (and_congr_right fun listed => ?_)
    refine not_congr (and_iff_left_of_imp ?_)
    rintro rfl
    exact right.unique active mem listed

theorem finish : ((roll.uncount id name).putState id .complete).Right := by
  refine right.uncount mem active rfl rfl rfl rfl rfl right.sorted right.nodup right.jobs ?_ ?_
  · intro other _
    rfl
  · intro at_ other
    change other ∈ roll.list at_ ∧ update roll.state id .complete other ≠ .complete ↔ _
    rw [and_assoc]
    refine and_congr_right fun _ => ?_
    by_cases same : other = id
    · subst same
      simp
    · rw [update_of_ne same, and_iff_left same]

end

/-- A job changes its state.  If it is in a queue, it does not complete and has not completed. -/
theorem putState {newstate : JobState} (right : roll.Right)
    (same : ∀ at_, id ∈ roll.list at_ → (newstate = .complete ↔ roll.state id = .complete)) :
    (roll.putState id newstate).Right := by
  refine right.restate right.sorted right.nodup right.jobs fun at_ other =>
    and_congr_right fun mem => ?_
  by_cases isJob : other = id
  · subst isJob
    rw [update_self]
    exact not_congr (same at_ mem)
  · rw [update_of_ne isJob]

end Right

end Roll

end Torque.Server
