import Mathlib.Data.List.Nodup
import Torque.Dependency.Hold
import Torque.Dependency.RoundTrip

/-!
# When the dependency hold is cleared

A job should lose its hold only when all its parents have reached the states that its
dependencies require.  Entries leave its dependencies when their parents say so, and what
is left is inspected by `set_depend_hold`.  That inspection looks at the first entry of
each dependency only, and at whichever job it found last if the entry names the job
itself; and an entry is searched by a name that may be the beginning of another one.
Where none of this matters, the hold is cleared in time in every run.
-/

namespace Torque.Dependency

open Torque.Transition List

/-! ## What was reached stays reached -/

section

variable {system next : System} {type : DependType} {id : JobId}

theorem ReachedBy.mono (reached : ReachedBy system type id)
    (started : system.started ⊆ next.started) (ended : system.ended ⊆ next.ended) :
    ReachedBy next type id := by
  unfold ReachedBy at reached ⊢
  split at reached
  · rcases reached with start | ⟨last, mem, equal⟩
    · exact .inl (started start)
    · exact .inr ⟨last, ended mem, equal⟩
  all_goals
    obtain ⟨last, mem, equal⟩ := reached
    exact ⟨last, ended mem, equal⟩

/-- An end with the exit status that a type requires. -/
theorem reachedBy_of_ended {exitStat : Int} (ended : (id, exitStat) ∈ system.ended)
    (ok : type = .afterOk → exitStat = 0) (notOk : type = .afterNotOk → exitStat ≠ 0) :
    ReachedBy system type id := by
  unfold ReachedBy
  split
  · exact .inr ⟨_, ended, rfl⟩
  · exact ⟨_, ended, rfl, ok rfl⟩
  · exact ⟨_, ended, rfl, notOk rfl⟩
  · exact ⟨_, ended, rfl⟩

end

/-! ## Entries -/

section

variable {names : ServerNames} {type : DependType} {name : JobId} {list : DependList}
  {entry : Entry}

theorem mem_afterEntries :
    entry ∈ afterEntries list ↔
      ∃ pd ∈ list, pd.type.isAfter = true ∧ pd.type = entry.1 ∧ entry.2 ∈ pd.jobs := by
  unfold afterEntries
  simp only [mem_flatMap, mem_filter, mem_map]
  constructor
  · rintro ⟨pd, ⟨mem, after⟩, child, job, rfl⟩
    exact ⟨pd, mem, after, rfl, job⟩
  · rintro ⟨pd, mem, after, equal, job⟩
    exact ⟨pd, ⟨mem, after⟩, entry.2, job, by rw [equal]⟩

/-- Entries stay where each dependency still has its jobs. -/
theorem afterEntries_mono {list' : DependList} (grows : ∀ pd ∈ list, pd.type.isAfter = true →
      ∀ child ∈ pd.jobs, ∃ pd' ∈ list', pd'.type = pd.type ∧ child ∈ pd'.jobs)
    (mem : entry ∈ afterEntries list) : entry ∈ afterEntries list' := by
  obtain ⟨pd, listed, after, equal, job⟩ := mem_afterEntries.1 mem
  obtain ⟨pd', listed', same, job'⟩ := grows pd listed after entry.2 job
  exact mem_afterEntries.2 ⟨pd', listed', same ▸ after, same.trans equal, job'⟩

/-- What `eraseP` takes away is what `find?` finds. -/
theorem find?_of_not_mem_eraseP {α : Type*} {p : α → Bool} {xs : List α} {x : α} (mem : x ∈ xs)
    (gone : x ∉ xs.eraseP p) : xs.find? p = some x := by
  obtain same | ⟨y, front, back, none, found, split, rest⟩ := exists_or_eq_self_of_eraseP p xs
  · rw [same] at gone
    exact absurd mem gone
  · rw [rest, mem_append, not_or] at gone
    rw [split, mem_append, mem_cons] at mem
    obtain rfl := (mem.resolve_left gone.1).resolve_right gone.2
    exact find?_eq_some_iff_append.2 ⟨found, front, back, split, by simpa using none⟩

/-- The dependency of a type is the only one of it. -/
theorem find?_type {pd : Depend} (distinct : (list.map Depend.type).Nodup) (mem : pd ∈ list)
    (isType : pd.type = type) : list.find? (fun pd => pd.type = type) = some pd := by
  cases found : list.find? (fun pd => pd.type = type) with
  | none => exact absurd (decide_eq_true isType) (find?_eq_none.1 found pd mem)
  | some other =>
    congr 1
    apply inj_on_of_nodup_map distinct (mem_of_find?_eq_some found) mem
    have same : other.type = type := by simpa using find?_some found
    rw [same, isType]

/-- Only the entry that was found is taken away. -/
theorem mem_removeEntry (distinct : (list.map Depend.type).Nodup)
    (mem : entry ∈ afterEntries list) :
    entry ∈ afterEntries (removeEntry names type name list) ∨
      (entry.1 = type ∧ findEntry names type name list = some entry.2) := by
  obtain ⟨pd, listed, after, equal, job⟩ := mem_afterEntries.1 mem
  by_cases isType : pd.type = type
  · by_cases gone : entry.2 ∈ pd.jobs.eraseP (namesJob names name)
    · left
      apply mem_afterEntries.2
      refine ⟨_, mem_map_of_mem listed, ?_⟩
      rw [if_pos isType]
      exact ⟨after, equal, gone⟩
    · right
      refine ⟨by rw [← equal, isType], ?_⟩
      rw [findEntry, find?_type distinct listed isType, Option.bind_some,
        find?_of_not_mem_eraseP job gone]
  · left
    apply mem_afterEntries.2
    refine ⟨_, mem_map_of_mem listed, ?_⟩
    rw [if_neg isType]
    exact ⟨after, equal, job⟩

/-- A dependency that is deleted has no entries. -/
theorem mem_deleteEmpty (mem : entry ∈ afterEntries list) :
    entry ∈ afterEntries (deleteEmpty type list) := by
  refine afterEntries_mono (fun pd listed _ child job => ?_) mem
  have nonempty : pd.jobs.isEmpty = false := isEmpty_eq_false_iff_exists_mem.2 ⟨_, job⟩
  refine ⟨pd, mem_filter.2 ⟨listed, ?_⟩, rfl, job⟩
  rw [nonempty, Bool.and_false]
  rfl

theorem types_removeEntry :
    (removeEntry names type name list).map Depend.type = list.map Depend.type :=
  types_changeType fun _ => rfl

end

/-! ## The hold -/

/-- The first entries of the dependencies that name jobs to come after. -/
def firstEntries (list : DependList) : List Entry :=
  list.filterMap fun pd =>
    if pd.type.isAfter then pd.jobs.head?.map fun first => (pd.type, first) else none

/-- The first entries of the dependencies speak for the others: if all of them pass the
inspection the others have been reached.  Only the very first of them may be the job itself, for
which no job was found before. -/
def FirstDecides (config : NameConfig) (system : System) : Prop :=
  (∀ entry ∈ firstEntries system.job.depend, config.jobIdsMatch system.job.id entry.2 = false →
    satisfies entry.1 (system.others (config.key entry.2)) = true) →
    (∀ entry ∈ (firstEntries system.job.depend).tail,
      config.jobIdsMatch system.job.id entry.2 = false) ∧
    ∀ pd ∈ system.job.depend, pd.type.isAfter = true → ∀ first ∈ pd.jobs.head?,
      config.jobIdsMatch system.job.id first = false →
        ∀ child ∈ pd.jobs.tail, Reached config system pd.type child

instance (config : NameConfig) (system : System) : Decidable (FirstDecides config system) :=
  inferInstanceAs (Decidable (_ → _))

/-- What a parent sends, it sends when it is entitled to. -/
def Entitled (system : System) (message : Message) : Prop :=
  message.op = .release → ∀ type, message.type.mirror = some type →
    type.isAfter = true → ReachedBy system type message.sender

/-- What the history says of a job is true. -/
def Recorded (system : System) (id : JobId) (other : OtherJob) : Prop :=
  (isStarted other.state = true → ReachedBy system .afterStart id) ∧
    (other.state = .exiting ∨ other.state = .complete → (id, other.exitStat) ∈ system.ended)

/-- What is wanted is listed or was reached. -/
def Accounted (config : NameConfig) (system : System) (list : DependList) (wanted : List Entry) :
    Prop :=
  ∀ entry ∈ wanted, entry ∈ afterEntries list ∨ Reached config system entry.1 entry.2

/-- What holds in every state of a run. -/
structure Safe (config : NameConfig) (system : System) : Prop where
  types : (system.job.depend.map Depend.type).Nodup
  others : ∀ id, ∀ other ∈ system.others id, Recorded system id other
  mail : ∀ message ∈ system.mail, Entitled system message
  wanted : Accounted config system system.job.depend system.wanted
  clears : ∀ left ∈ system.clears, left = []

section

variable {config : NameConfig} {system : System} {djp : Option OtherJob} {job : DependentJob}
  {list : DependList} {others : JobId → Option OtherJob}

/-- A parent that passes the inspection has reached its state. -/
theorem Safe.reached_of_satisfies (safe : Safe config system) {type : DependType} {id : JobId}
    (after : type.isAfter = true) (passes : satisfies type (system.others id) = true) :
    ReachedBy system type id := by
  cases found : system.others id with
  | none =>
    rw [found] at passes
    exact nomatch passes
  | some other =>
    rw [found] at passes
    unfold satisfies at passes
    dsimp only at passes
    split at passes
    · next isStart =>
      subst isStart
      exact (safe.others id other found).1 passes
    · simp only [Bool.and_eq_true, decide_eq_true_eq, Bool.not_eq_true', Bool.and_eq_false_iff,
        decide_eq_false_iff_not, not_not] at passes
      obtain ⟨⟨complete, ok⟩, notOk⟩ := passes
      apply reachedBy_of_ended ((safe.others id other found).2 (.inr complete))
      · intro isOk
        exact ok.resolve_left (not_not_intro isOk)
      · intro isNotOk
        exact notOk.resolve_left (not_not_intro isNotOk)

/-- A hold is not taken back by the dependencies that follow. -/
theorem holdLoop_some {substate : HoldSubstate} :
    holdLoop config job others list djp (some substate) ≠ none := by
  induction list generalizing djp substate with
  | nil => exact nofun
  | cons pdp more ih =>
    rw [holdLoop]
    split
    · split <;> exact ih
    · split <;> exact ih
    · split <;> exact ih
    · split
      · split
        · exact ih
        · dsimp only
          split <;> split <;> exact ih
      · exact ih

/-- What is set for a dependency stays unset if the loop sets nothing. -/
theorem holdLoop_ite {held : HoldSubstate} {free : Prop} [Decidable free]
    (cleared : holdLoop config job others list djp (if free then none else some held) = none) :
    free ∧ holdLoop config job others list djp none = none := by
  by_cases isFree : free
  · rw [if_pos isFree] at cleared
    exact ⟨isFree, cleared⟩
  · rw [if_neg isFree] at cleared
    exact absurd cleared holdLoop_some

/-- One round of the loop that sets nothing: the dependency names no job to come after, or
its first one passes the inspection. -/
theorem holdLoop_cons_none {pdp : Depend} {more : DependList}
    (cleared : holdLoop config job others (pdp :: more) djp none = none) :
    (firstEntries (pdp :: more) = firstEntries more ∧
      (pdp.type.isAfter = true → pdp.jobs = []) ∧
      holdLoop config job others more djp none = none) ∨
    ∃ first found, pdp.type.isAfter = true ∧ pdp.jobs.head? = some first ∧
      found = (if config.jobIdsMatch job.id first then djp else others (config.key first)) ∧
      satisfies pdp.type found = true ∧ holdLoop config job others more found none = none := by
  have skipped (notAfter : pdp.type.isAfter = false)
      (later : holdLoop config job others more djp none = none) :
      firstEntries (pdp :: more) = firstEntries more ∧
        (pdp.type.isAfter = true → pdp.jobs = []) ∧
        holdLoop config job others more djp none = none := by
    refine ⟨filterMap_cons_none ?_, fun after => ?_, later⟩
    · rw [notAfter, if_neg Bool.false_ne_true]
    · rw [notAfter] at after
      exact nomatch after
  rw [holdLoop] at cleared
  split at cleared
  · next isType => exact .inl (skipped (by rw [isType]; rfl) (holdLoop_ite cleared).2)
  · next isType =>
    rw [← ite_not] at cleared
    exact .inl (skipped (by rw [isType]; rfl) (holdLoop_ite cleared).2)
  · next isType =>
    rw [← ite_not] at cleared
    exact .inl (skipped (by rw [isType]; rfl) (holdLoop_ite cleared).2)
  · split at cleared
    · next after =>
      split at cleared
      · next empty =>
        refine .inl ⟨filterMap_cons_none ?_, fun _ => empty, cleared⟩
        rw [empty, if_pos after]
        rfl
      · next first _ jobs =>
        obtain ⟨passes, later⟩ := holdLoop_ite cleared
        refine .inr ⟨first, _, after, ?_, rfl, passes, later⟩
        rw [jobs]
        rfl
    · next notAfter => exact .inl (skipped (Bool.not_eq_true _ ▸ notAfter) cleared)

/-- If the loop sets nothing, the first entries pass the inspection. -/
theorem satisfies_of_holdLoop (cleared : holdLoop config job others list djp none = none) :
    ∀ pd ∈ list, pd.type.isAfter = true → ∀ first ∈ pd.jobs.head?,
      config.jobIdsMatch job.id first = false →
      satisfies pd.type (others (config.key first)) = true := by
  induction list generalizing djp with
  | nil => exact nofun
  | cons pdp more ih =>
    intro pd mem after first head notSelf
    rcases holdLoop_cons_none cleared with ⟨_, empty, later⟩ |
      ⟨inspected, found, _, isHead, isFound, passes, later⟩
    · rcases mem_cons.1 mem with rfl | mem
      · rw [empty after] at head
        exact nomatch head
      · exact ih later pd mem after first head notSelf
    · rcases mem_cons.1 mem with rfl | mem
      · obtain rfl := Option.some.inj (isHead.symm.trans head)
        rwa [isFound, notSelf, if_neg Bool.false_ne_true] at passes
      · exact ih later pd mem after first head notSelf

/-- If the loop sets nothing, the very first entry is not the job itself. -/
theorem not_self_of_holdLoop (cleared : holdLoop config job others list none none = none)
    (tail : ∀ entry ∈ (firstEntries list).tail, config.jobIdsMatch job.id entry.2 = false) :
    ∀ entry ∈ firstEntries list, config.jobIdsMatch job.id entry.2 = false := by
  induction list with
  | nil => exact nofun
  | cons pdp more ih =>
    rcases holdLoop_cons_none cleared with ⟨same, _, later⟩ |
      ⟨first, found, after, isHead, isFound, passes, _⟩
    · rw [same] at tail ⊢
      exact ih later tail
    · have split : firstEntries (pdp :: more) = (pdp.type, first) :: firstEntries more := by
        apply filterMap_cons_some
        rw [if_pos after, isHead]
        rfl
      rw [split] at tail ⊢
      refine forall_mem_cons.2 ⟨Bool.eq_false_iff.2 fun isSelf => ?_, tail⟩
      rw [isFound, if_pos isSelf] at passes
      exact nomatch passes

variable (safe : Safe config system) (first : FirstDecides config system)
include safe first

/-- Where the first entries speak for the others, a hold is cleared only if nothing is
pending. -/
theorem Safe.pending_eq_nil
    (cleared : holdLoop config system.job system.others system.job.depend none none = none) :
    pending config system = [] := by
  obtain ⟨tail, first⟩ := first fun entry mem notSelf => by
    obtain ⟨pd, inList, isEntry⟩ := mem_filterMap.1 mem
    split at isEntry
    · next after =>
      obtain ⟨head, isHead, rfl⟩ := Option.map_eq_some_iff.1 isEntry
      exact satisfies_of_holdLoop cleared pd inList after head isHead notSelf
    · exact nomatch isEntry
  apply filter_eq_nil_iff.2
  intro entry mem
  have reached : Reached config system entry.1 entry.2 := by
    rcases safe.wanted entry mem with listed | reached
    · obtain ⟨pd, inList, after, equal, job⟩ := mem_afterEntries.1 listed
      obtain ⟨head, more, jobs⟩ := exists_cons_of_ne_nil (ne_nil_of_mem job)
      have isHead : head ∈ pd.jobs.head? := by rw [jobs]; rfl
      have notSelf : config.jobIdsMatch system.job.id head = false := by
        apply not_self_of_holdLoop cleared tail (pd.type, head)
        apply mem_filterMap.2
        refine ⟨pd, inList, ?_⟩
        rw [if_pos after, isHead]
        rfl
      have passes := satisfies_of_holdLoop cleared pd inList after head isHead notSelf
      have others := first pd inList after head isHead notSelf
      rw [← equal]
      rw [jobs] at job others
      rcases mem_cons.1 job with same | later
      · rw [same]
        exact safe.reached_of_satisfies after passes
      · exact others entry.2 later
    · exact reached
  simp [reached]

/-- `set_depend_hold` keeps what holds in a run. -/
theorem Safe.setDependHold : Safe config (setDependHold config system) := by
  unfold Dependency.setDependHold
  split
  · exact ⟨safe.types, safe.others, safe.mail, safe.wanted, safe.clears⟩
  · next cleared =>
    split
    · exact ⟨safe.types, safe.others, safe.mail, safe.wanted, forall_mem_append.2
        ⟨safe.clears, forall_mem_singleton.2 (safe.pending_eq_nil first cleared)⟩⟩
    · exact safe

end

/-! ## The history -/

section

variable {config : NameConfig} {system next : System} {id : JobId} {other : OtherJob}

variable (safe : Safe config system)
include safe

/-- One of the other jobs makes a step: the history grows, and what is new in the mail and
among the jobs agrees with it. -/
theorem Safe.progress {other : Option OtherJob} (job : next.job = system.job)
    (wanted : next.wanted = system.wanted) (clears : next.clears = system.clears)
    (started : system.started ⊆ next.started) (ended : system.ended ⊆ next.ended)
    (mail : ∀ message ∈ next.mail, message ∈ system.mail ∨ Entitled next message)
    (others : next.others = putOther system.others id other)
    (recorded : ∀ job ∈ other, Recorded next id job) : Safe config next := by
  have keeps : ∀ {type name}, ReachedBy system type name → ReachedBy next type name :=
    fun reached => reached.mono started ended
  constructor
  · rw [job]
    exact safe.types
  · intro k job found
    rw [others, putOther] at found
    split at found
    · next same =>
      rw [same]
      exact recorded job found
    · have old := safe.others k job found
      exact ⟨fun isStart => keeps (old.1 isStart), fun isEnd => ended (old.2 isEnd)⟩
  · intro message mem
    rcases mail message mem with old | new
    · exact fun isRelease type isMirror after =>
        keeps (safe.mail message old isRelease type isMirror after)
    · exact new
  · rw [wanted, job]
    intro entry mem
    exact (safe.wanted entry mem).imp_right keeps
  · rw [clears]
    exact safe.clears

/-- A job is replaced, of which the history says what is true. -/
theorem Safe.withOther {other : Option OtherJob} (recorded : ∀ job ∈ other, Recorded system id job)
    : Safe config { system with others := putOther system.others id other } :=
  safe.progress rfl rfl rfl (Subset.refl _) (Subset.refl _) (fun _ mem => .inl mem) rfl recorded

end

/-! ## The requests to the job -/

/-- The type and the name by which an event looks for an entry of the job, and the name of
the job that it means. -/
def searched (config : NameConfig) (system : System) :
    HoldEvent → Option (DependType × JobId × JobId)
  | .deliver index =>
    match system.mail[index]? with
    | some ⟨.release, type, sender⟩ => type.mirror.map fun type => (type, sender, sender)
    | _ => none
  | .register type parent =>
    if (type, parent) ∈ afterEntries system.job.depend ∧
        (system.others (config.key parent)).all (isBadState type) then
      some (type, parent, config.key parent)
    else none
  | .unregister type child =>
    if type = .syncWith then none
    else type.mirror.map fun type => (type, child, config.key child)
  | .removeBeforeAny parent =>
    if listsBeforeAny config system parent then some (.afterAny, parent, config.key parent)
    else none
  | _ => none

/-- What is found by the name is an entry of the job that is meant. -/
def Means (config : NameConfig) (system : System) (type : DependType) (name id : JobId) : Prop :=
  ∀ found ∈ findEntry config.names type name system.job.depend, config.key found = id
deriving Decidable

/-- What an event looks for, it finds. -/
def FindsMeant (config : NameConfig) (system : System) (event : HoldEvent) : Prop :=
  ∀ search ∈ searched config system event, Means config system search.1 search.2.1 search.2.2
deriving Decidable

section

variable {config : NameConfig} {system : System} {type : DependType} {list : DependList}
  {entry : Entry} {wanted : List Entry} {parent child name : JobId} {names : ServerNames}

/-- The job and what is wanted change, the rest of the system does not. -/
theorem Safe.withJob (safe : Safe config system) {job : DependentJob}
    (types : (job.depend.map Depend.type).Nodup)
    (listed : Accounted config system job.depend wanted) :
    Safe config { system with job := job, wanted := wanted } :=
  ⟨types, safe.others, safe.mail, listed, safe.clears⟩

/-- An entry was taken away: what is still wanted is still listed or was reached, if that
holds of the entry itself. -/
theorem Safe.wanted_removeEntry (safe : Safe config system) (fewer : wanted ⊆ system.wanted)
    (lost : ∀ found, findEntry config.names type name system.job.depend = some found →
      (type, found) ∈ wanted →
      (type, found) ∈ afterEntries (removeEntry config.names type name system.job.depend) ∨
        Reached config system type found) :
    Accounted config system (removeEntry config.names type name system.job.depend) wanted := by
  intro entry mem
  rcases safe.wanted entry (fewer mem) with listed | reached
  · rcases mem_removeEntry safe.types listed with kept | ⟨isType, found⟩
    · exact .inl kept
    · obtain ⟨_, child⟩ := entry
      obtain rfl : _ = type := isType
      exact lost child found mem
  · exact .inr reached

theorem mem_dropWanted (mem : entry ∈ dropWanted config type name list wanted) :
    entry ∈ wanted ∧
      (entry.1 = type → config.key entry.2 = config.key name → entry ∈ afterEntries list) := by
  obtain ⟨old, kept⟩ := mem_filter.1 mem
  refine ⟨old, fun isType sameName => ?_⟩
  simpa [isType, sameName] using kept

/-- An entry was taken away for a parent that has reached its state. -/
theorem Safe.wanted_of_reached (safe : Safe config system) {id : JobId}
    (reached : ReachedBy system type id) (meant : Means config system type name id) :
    Accounted config system (removeEntry config.names type name system.job.depend)
      system.wanted := by
  refine safe.wanted_removeEntry (Subset.refl _) fun found isFound _ => ?_
  right
  rw [Reached, meant found isFound]
  exact reached

/-- An entry was taken away, and is no longer wanted. -/
theorem Safe.wanted_of_dropped (safe : Safe config system)
    (meant : Means config system type name (config.key name)) :
    let depend := removeEntry config.names type name system.job.depend
    Accounted config system depend (dropWanted config type name depend system.wanted) := by
  refine safe.wanted_removeEntry (fun _ mem => (mem_dropWanted mem).1) fun found isFound mem => ?_
  exact .inl ((mem_dropWanted mem).2 rfl (meant found isFound))

theorem Safe.releaseBeforeDependency (safe : Safe config system)
    (reached : ReachedBy system type child) (meant : Means config system type child child) :
    Safe config (releaseBeforeDependency config type child system).1 := by
  unfold Dependency.releaseBeforeDependency
  split
  · exact safe
  · apply safe.withJob
    · apply List.Nodup.sublist (filter_sublist.map _)
      rw [types_removeEntry]
      exact safe.types
    · exact fun entry mem =>
        (safe.wanted_of_reached reached meant entry mem).imp_left mem_deleteEmpty

theorem Safe.postDoq (safe : Safe config system) {badState : Bool}
    (reached : badState = true → Reached config system type parent)
    (meant : Means config system type parent (config.key parent)) :
    Safe config (postDoq config badState type parent system).1 := by
  unfold Dependency.postDoq
  split
  · exact safe
  · apply safe.withJob
    · rw [types_removeEntry]
      exact safe.types
    · cases badState with
      | true => exact safe.wanted_of_reached (reached rfl) meant
      | false => exact safe.wanted_of_dropped meant

theorem Safe.unregisterDependency (safe : Safe config system)
    (meant : Means config system type child (config.key child)) :
    Safe config (unregisterDependency config type child system).1 := by
  unfold Dependency.unregisterDependency
  split
  · exact safe
  · apply safe.withJob
    · rw [types_removeEntry]
      exact safe.types
    · exact safe.wanted_of_dropped meant

theorem Safe.removeAfterAnyDependency (safe : Safe config system)
    (meant : Means config system .afterAny parent (config.key parent)) :
    Safe config (removeAfterAnyDependency config parent system).1 := by
  unfold Dependency.removeAfterAnyDependency
  split
  · exact safe
  · exact safe.unregisterDependency meant

/-! ### A job to come before -/

/-- A dependency that only gains jobs keeps its entries. -/
theorem mem_changeType {change : Depend → Depend} (same : ∀ pd, (change pd).type = pd.type)
    (grows : ∀ pd, ∀ child ∈ pd.jobs, child ∈ (change pd).jobs)
    (mem : entry ∈ afterEntries list) : entry ∈ afterEntries (changeType type change list) := by
  refine afterEntries_mono (fun pd listed _ child job => ⟨_, mem_map_of_mem listed, ?_⟩) mem
  split
  · exact ⟨same pd, grows pd child job⟩
  · exact ⟨rfl, job⟩

theorem mem_withType
    (mem : entry ∈ afterEntries list) : entry ∈ afterEntries (withType type list) := by
  unfold withType
  split
  · exact mem
  · exact afterEntries_mono (fun pd listed _ _ job => ⟨pd, mem_append_left _ listed, rfl, job⟩) mem

/-- There is a dependency of the type, which has no entry that was not there. -/
theorem exists_withType (absent : findEntry names type name list = none)
    (distinct : (list.map Depend.type).Nodup) :
    ∃ pd ∈ withType type list, pd.type = type ∧ pd.jobs.any (namesJob names name) = false := by
  unfold withType
  split
  · next present =>
    obtain ⟨pd, listed, isType⟩ := any_eq_true.1 present
    refine ⟨pd, listed, of_decide_eq_true isType, ?_⟩
    rw [findEntry, find?_type distinct listed (of_decide_eq_true isType), Option.bind_some,
      find?_eq_none] at absent
    rw [any_eq_false]
    exact absent
  · exact ⟨_, mem_concat_self, rfl, rfl⟩

/-- The types of the dependencies and the entries that were there stay, and the job is
entered. -/
theorem registerDep_spec {mirrored : DependType} (isMirror : type.mirror = some mirrored)
    (after : mirrored.isAfter = true) (absent : findEntry names mirrored child list = none)
    (distinct : (list.map Depend.type).Nodup) :
    ((registerDep names type child list).map Depend.type).Nodup ∧
      (∀ entry ∈ afterEntries list, entry ∈ afterEntries (registerDep names type child list)) ∧
      (mirrored, child) ∈ afterEntries (registerDep names type child list) := by
  unfold registerDep
  rw [isMirror]
  refine ⟨?_, ?_, ?_⟩
  · rw [types_changeType]
    · exact nodup_types_withType distinct
    · intro pd
      split <;> rfl
  · intro entry mem
    apply mem_changeType _ _ (mem_withType mem)
    · intro pd
      split <;> rfl
    · intro pd job listed
      split
      · exact listed
      · exact mem_append_left _ listed
  · obtain ⟨pd, listed, isType, unnamed⟩ := exists_withType absent distinct
    apply mem_afterEntries.2
    refine ⟨_, mem_map_of_mem listed, ?_⟩
    rw [if_pos isType]
    dsimp only
    rw [unnamed, if_neg Bool.false_ne_true]
    refine ⟨?_, isType, mem_concat_self⟩
    rw [isType]
    exact after

/-- A count of `on` has no entries. -/
theorem mem_afterEntries_countOn {count : Int} (mem : entry ∈ afterEntries list) :
    entry ∈ afterEntries (if count ≤ 0 then list.filter fun pd => pd.type ≠ .on
      else changeType .on (fun pd => { pd with numexp := pd.numexp - 1 }) list) := by
  split
  · refine afterEntries_mono (fun pd listed after _ job =>
      ⟨pd, mem_filter.2 ⟨listed, decide_eq_true ?_⟩, rfl, job⟩) mem
    intro isOn
    rw [isOn] at after
    exact nomatch after
  · exact mem_changeType (fun _ => rfl) (fun _ _ listed => listed) mem

theorem Safe.registerBeforeDep (safe : Safe config system) (type : DependType) (child : JobId) :
    Safe config (registerBeforeDep config type child system) := by
  unfold Dependency.registerBeforeDep
  split
  · next on mirrored _ isMirror =>
    split
    · exact safe
    · next new =>
      rw [Bool.or_eq_true, not_or, Bool.not_eq_true', Bool.not_eq_false,
        Option.not_isSome_iff_eq_none] at new
      obtain ⟨types, kept, entered⟩ := registerDep_spec isMirror new.1 new.2 safe.types
      apply safe.withJob
      · split
        · exact types.sublist (filter_sublist.map _)
        · rw [types_changeType]
          · exact types
          · intro pd
            rfl
      · intro entry mem
        rcases mem_cons.1 mem with rfl | mem
        · exact .inl (mem_afterEntries_countOn entered)
        · rcases safe.wanted entry mem with listed | reached
          · exact .inl (mem_afterEntries_countOn (kept entry listed))
          · exact .inr reached
  · exact safe

/-! ### Registrations and messages -/

variable (safe : Safe config system)
include safe

variable {other : OtherJob}

/-- The state of another job stays when its dependencies change. -/
theorem Safe.putDepend {id : JobId} (found : system.others id = some other) (depend : DependList) :
    Safe config { system with
      others := putOther system.others id (some { other with depend := depend }) } := by
  apply safe.withOther
  rintro _ ⟨⟩
  exact safe.others id other found

/-- A registration is refused for the state of a parent that has reached what is required. -/
theorem Safe.reached_of_isBadState (found : system.others (config.key parent) = some other)
    (refused : isBadState type other = true) : Reached config system type parent := by
  unfold isBadState at refused
  simp only [Bool.and_eq_true, Bool.or_eq_true, decide_eq_true_eq] at refused
  obtain ⟨isEnd, isType⟩ := refused
  apply reachedBy_of_ended ((safe.others _ other found).2 isEnd.symm)
  · rintro rfl
    simpa using isType
  · rintro rfl
    simpa using isType

theorem Safe.registerWith
    (meant : (system.others (config.key parent)).all (isBadState type) = true →
      Means config system type parent (config.key parent)) :
    Safe config (registerWith config type parent system).1 := by
  unfold Dependency.registerWith
  split
  · next unknown =>
    apply safe.postDoq fun known => absurd known Bool.false_ne_true
    apply meant
    rw [unknown]
    rfl
  · next other found =>
    split
    · next refused =>
      apply safe.postDoq fun _ => safe.reached_of_isBadState found refused
      apply meant
      rw [found]
      exact refused
    · exact safe.putDepend found _

theorem Safe.receive {message : Message} (sent : Entitled system message)
    (meant : message.op = .release → ∀ type, message.type.mirror = some type →
      Means config system type message.sender message.sender) :
    Safe config (receive config message system).1 := by
  unfold Dependency.receive
  split
  · next type isRelease isMirror =>
    split
    · next after =>
      exact safe.releaseBeforeDependency (sent isRelease type isMirror after)
        (meant isRelease type isMirror)
    · exact safe
  · exact safe
  · exact safe.withJob safe.types safe.wanted

theorem Safe.eraseMail (index : Nat) :
    Safe config { system with mail := system.mail.eraseIdx index } :=
  ⟨safe.types, safe.others, fun message mem => safe.mail message (mem_of_mem_eraseIdx mem),
    safe.wanted, safe.clears⟩

/-- What an event does to the job before the hold is looked at. -/
theorem Safe.jobRequest {event : HoldEvent} (meant : FindsMeant config system event) :
    Safe config (jobRequest config system event).1 := by
  unfold Dependency.jobRequest
  split
  · next index =>
    split
    · exact safe
    · next message found =>
      apply (safe.eraseMail index).receive
      · exact safe.mail message (mem_of_getElem? found)
      · intro isRelease type isMirror
        obtain ⟨op, sent, sender⟩ := message
        obtain rfl : op = .release := isRelease
        apply meant (type, sender, sender)
        rw [searched, found]
        dsimp only
        rw [isMirror]
        rfl
  · next type parent =>
    split
    · next listed =>
      apply safe.registerWith
      intro refused
      apply meant (type, parent, config.key parent)
      rw [searched, if_pos ⟨listed, refused⟩]
      rfl
    · exact safe
  · exact safe.registerBeforeDep _ _
  · next type child =>
    split
    · exact safe
    · next mirrored isMirror =>
      split
      · exact safe
      · next notSync =>
        apply safe.unregisterDependency
        apply meant (mirrored, child, config.key child)
        rw [searched, if_neg notSync, isMirror]
        rfl
  · next parent =>
    split
    · next lists =>
      apply safe.removeAfterAnyDependency
      apply meant (.afterAny, parent, config.key parent)
      rw [searched, if_pos lists]
      rfl
    · exact safe
  · exact safe.withJob safe.types safe.wanted
  · exact safe
  · exact safe

end

/-! ## The other jobs -/

section

variable {config : NameConfig} {system next : System} {id : JobId} {depend : DependList}
  {job : DependentJob} {sender : JobId} {other : OtherJob}

/-- The types that stand for the exit status have one mirror image each. -/
theorem eq_of_mirror {type : DependType} :
    (type.mirror = some .afterOk → type = .beforeOk) ∧
      (type.mirror = some .afterNotOk → type = .beforeNotOk) := by
  cases type <;> decide

theorem entitled_startMessages (started : sender ∈ next.started) :
    ∀ message ∈ startMessages config job sender depend, Entitled next message := by
  intro message mem _ type isMirror _
  obtain ⟨child, _, sent⟩ := mem_filterMap.1 mem
  split at sent
  · obtain rfl := Option.some.inj sent
    have isStart : DependType.mirror .beforeStart = some .afterStart := by decide
    obtain rfl := Option.some.inj (isStart.symm.trans isMirror)
    exact .inl started
  · exact nomatch sent

theorem entitled_termMessages {aborted : Bool} {exitStat : Int}
    (ended : (sender, exitStat) ∈ next.ended) :
    ∀ message ∈ termMessages config job sender aborted exitStat depend,
      Entitled next message := by
  intro message mem isRelease type isMirror _
  obtain ⟨pd, _, sentTo⟩ := mem_flatMap.1 mem
  split at sentTo
  · exact nomatch sentTo
  · next op isOp =>
    obtain ⟨child, _, sent⟩ := mem_filterMap.1 sentTo
    split at sent
    · obtain rfl := Option.some.inj sent
      dsimp only at isMirror
      apply reachedBy_of_ended ended
      · rintro rfl
        rw [eq_of_mirror.1 isMirror] at isOp
        simp only [termOp] at isOp
        grind
      · rintro rfl
        rw [eq_of_mirror.2 isMirror] at isOp
        simp only [termOp] at isOp
        grind
    · exact nomatch sent

theorem Safe.otherStep (safe : Safe config system)
    (found : system.others id = some other) (event : HoldEvent) :
    Safe config (otherStep config system id other event) := by
  unfold Dependency.otherStep
  split
  · split
    · exact safe
    · next state waits =>
      simp only [Bool.or_eq_true, not_or, Bool.not_eq_true] at waits
      apply safe.withOther
      rintro _ ⟨⟩
      constructor
      · intro isStart
        rw [waits.1.1] at isStart
        exact nomatch isStart
      · rintro (rfl | rfl)
        · exact nomatch waits.1.1
        · exact nomatch waits.1.1
  · split
    · exact safe
    · refine safe.progress rfl rfl rfl (subset_cons_self _ _) (Subset.refl _) ?_ rfl ?_
      · exact fun message mem =>
          (mem_append.1 mem).imp_right (entitled_startMessages mem_cons_self message)
      · rintro _ ⟨⟩
        exact ⟨fun _ => .inl mem_cons_self, nofun⟩
  · split
    · exact safe
    · refine safe.progress rfl rfl rfl (Subset.refl _) (subset_cons_self _ _) ?_ rfl ?_
      · exact fun message mem =>
          (mem_append.1 mem).imp_right (entitled_termMessages mem_cons_self message)
      · rintro _ ⟨⟩
        exact ⟨fun _ => .inr ⟨_, mem_cons_self, rfl⟩, fun _ => mem_cons_self⟩
  · split
    · next exiting =>
      have ended := (safe.others id other found).2 (.inl exiting)
      apply safe.withOther
      rintro _ ⟨⟩
      exact ⟨fun _ => .inr ⟨_, ended, rfl⟩, fun _ => ended⟩
    · exact safe
  · split
    · exact safe.withOther nofun
    · exact safe
  · exact safe

end

/-! ## Runs -/

/-- An event does not meet what goes wrong: it finds the entries that are meant, and if the
hold is looked at the first entries speak for the others. -/
def HoldsRightly (config : NameConfig) (system : System) (event : HoldEvent) : Prop :=
  system.job.aborted = false →
    FindsMeant config system event ∧
      ((jobRequest config system event).2 = true →
        FirstDecides config (jobRequest config system event).1)
deriving Decidable

section

variable {config : NameConfig} {system : System} {event : HoldEvent}

theorem Safe.jobStep (safe : Safe config system) (meant : FindsMeant config system event)
    (first : (Dependency.jobRequest config system event).2 = true →
      FirstDecides config (Dependency.jobRequest config system event).1) :
    Safe config (jobStep config system event) := by
  unfold Dependency.jobStep
  split
  · next looked =>
    exact (safe.jobRequest meant).setDependHold (first looked)
  · exact safe.jobRequest meant

theorem Safe.holdStep (safe : Safe config system)
    (rightly : HoldsRightly config system event) : Safe config (holdStep config system event) := by
  unfold Dependency.holdStep
  split
  · split
    · exact safe
    · apply safe.withOther
      rintro _ ⟨⟩
      exact ⟨nofun, nofun⟩
  all_goals split
  iterate 5
    · exact safe
    · next found => exact safe.otherStep found _
  · exact safe
  · next active =>
    obtain ⟨meant, first⟩ := rightly (Bool.not_eq_true _ ▸ active)
    exact safe.jobStep meant first

/-- A job whose dependencies were read waits for all it lists. -/
theorem safe_new {id : JobId} {val : List Char} {depend : DependList}
    (accepted : decodeDepend config.names val = some depend) :
    Safe config (System.new id depend) where
  types := (sound_nil.decodeParts accepted).types
  others := nofun
  mail := nofun
  wanted := fun _ mem => .inl mem
  clears := nofun

end

/-- A server that is called by its name in full. -/
def fullNames : NameConfig where
  names := plainNames
  suffixSet := false

end Torque.Dependency
