import Torque.Node.SlotTracker
import Torque.Transition.Run

/-!
# Reserving execution slots

A job reserves slots of a tracker into a subset of its own, which is a tracker
too, and the slots that are occupied in the subset are freed again when the job
ends.  The subset is made as long as the tracker when slots are reserved, and is
not changed when slots are added to the tracker or taken from it.

A slot that is taken from the tracker stays in the subset that holds it.  If it is
added again it is free, although it is held, so a second job can reserve it.  And a
subset that is longer than the tracker is not freed at all.  As long as neither
happens, the subsets are disjoint, and no slot is occupied unless it is held.
-/

namespace Torque.Node

open Torque.Transition Function List ExecutionSlotTracker

namespace ExecutionSlotTracker

variable (index : Nat) (est : ExecutionSlotTracker)

/-! ## Freeing and removing a slot -/

/-- `mark_as_free`; `none` is `OUT_OF_RANGE`. -/
def markAsFree (index : Int) (est : ExecutionSlotTracker) : Option ExecutionSlotTracker :=
  if index < 0 ∨ (est.slots.length : Int) ≤ index then none
  else if occupied : est.slots[index.toNat]? = some true then
    some
      { slots := est.slots.set index.toNat false
        openCount := est.openCount + 1
        counted := by
          obtain ⟨inside, isOccupied⟩ := List.getElem?_eq_some_iff.mp occupied
          rw [count_set inside, est.counted]
          simp [isOccupied] }
  else some est

/-- A slot is freed, and whether that is possible is not looked at. -/
def release (index : Int) (est : ExecutionSlotTracker) : ExecutionSlotTracker :=
  (est.markAsFree index).getD est

/-- `remove_execution_slot`; it is `none` if there is no last slot to look at. -/
def removeExecutionSlot (est : ExecutionSlotTracker) : Option ExecutionSlotTracker :=
  if some : est.slots ≠ [] then
    .some
      { slots := est.slots.dropLast
        openCount := est.openCount - if est.slots.getLast some = false then 1 else 0
        counted := by
          have split := congrArg (count false) (dropLast_append_getLast some)
          rw [count_append, count_singleton] at split
          rw [est.counted, ← split]
          cases est.slots.getLast some <;> simp }
  else none

theorem slots_release : (est.release index).slots = est.slots.set index false := by
  unfold release markAsFree
  split
  · have behind : est.slots.length ≤ index := by omega
    exact (set_eq_of_length_le behind).symm
  · split
    · rfl
    · rename_i unoccupied
      have within : index < est.slots.length := by omega
      have free : est.slots[index] = false := by
        rw [Int.toNat_natCast, getElem?_eq_getElem within, Option.some.injEq,
          Bool.not_eq_true] at unoccupied
        exact unoccupied
      rw [← free, set_getElem_self]
      rfl

theorem isOccupied_release (other : Nat) (est : ExecutionSlotTracker) :
    (est.release index).isOccupied other = true ↔
      est.isOccupied other = true ∧ other ≠ index := by
  rw [isOccupied_eq_true_iff, isOccupied_eq_true_iff, slots_release, getElem?_set]
  by_cases same : index = other
  · subst same
    by_cases inside : index < est.slots.length <;> simp [inside]
  · simp [same, Ne.symm same]

theorem isOccupied_addExecutionSlot (index : Nat) :
    est.addExecutionSlot.isOccupied index = est.isOccupied index := by
  rw [← isOccupied_padTo est.slots.length est, isOccupied, isOccupied]
  simp [addExecutionSlot, padTo]

theorem isOccupied_of_removeExecutionSlot {est removed : ExecutionSlotTracker} {index : Nat}
    (step : est.removeExecutionSlot = some removed) (occupied : removed.isOccupied index = true) :
    est.isOccupied index = true := by
  unfold removeExecutionSlot at step
  split at step
  · cases step
    rw [isOccupied_eq_true_iff] at occupied ⊢
    rw [getElem?_dropLast] at occupied
    split at occupied
    · exact occupied
    · cases occupied
  · cases step

/-! ## Reserving slots -/

/-- Where the loop of `reserve_execution_slots` is. -/
structure Reserving where
  reservedSoFar : Int
  this : ExecutionSlotTracker
  est : ExecutionSlotTracker

/-- One round of the loop.  It ends when enough slots are reserved: nothing changes from then
on. -/
def reserveRound (num : Int) (index : Nat) (state : Reserving) : Reserving :=
  if state.reservedSoFar < num ∧ state.this.slots[index]? = some false then
    ⟨state.reservedSoFar + 1, state.this.mark index, state.est.mark index⟩
  else state

/-- The first rounds of the loop. -/
def reserveRounds (num : Int) (this est : ExecutionSlotTracker) : Nat → Reserving
  | 0 => ⟨0, this, est⟩
  | index + 1 => reserveRound num index (reserveRounds num this est index)

/-- `reserve_execution_slots`; `none` is `INSUFFICIENT_FREE_EXECUTION_SLOTS`.  The tracker and
the subset are returned. -/
def reserveExecutionSlots (num : Int) (this est : ExecutionSlotTracker) :
    Option (ExecutionSlotTracker × ExecutionSlotTracker) :=
  if this.openCount < num then none
  else
    let est := est.padTo (this.getTotalExecutionSlots - 1)
    let state := reserveRounds num this est this.getTotalExecutionSlots
    some (state.this, state.est)

/-- The number of free slots in front of a slot. -/
def freeBefore (est : ExecutionSlotTracker) (index : Nat) : Nat :=
  (est.slots.take index).count false

theorem freeBefore_succ (index : Nat) :
    est.freeBefore (index + 1) =
      est.freeBefore index + if est.slots[index]? = some false then 1 else 0 := by
  unfold freeBefore
  rw [take_add_one, count_append]
  cases est.slots[index]? with
  | none => rfl
  | some slot => cases slot <;> rfl

theorem slots_eq_some_false_iff {est : ExecutionSlotTracker} {index : Nat} :
    est.slots[index]? = some false ↔
      index < est.getTotalExecutionSlots ∧ ¬ est.isOccupied index = true := by
  rw [isOccupied_eq_true_iff, getTotalExecutionSlots]
  by_cases inside : index < est.slots.length
  · simp [inside]
  · simp [inside]

/-- The loop reserves a slot: it is free, and fewer than `num` free slots are in front of it. -/
def Takes (num : Int) (this : ExecutionSlotTracker) (index : Nat) : Prop :=
  this.slots[index]? = some false ∧ (this.freeBefore index : Int) < num

section

variable {num : Int} {this est before now : ExecutionSlotTracker} {state : Reserving}
  {rounds : Nat}

/-- What the first rounds have done to a tracker: the slots that they take are occupied too. -/
structure Marked (num : Int) (this : ExecutionSlotTracker) (rounds : Nat)
    (before now : ExecutionSlotTracker) : Prop where
  length : now.getTotalExecutionSlots = before.getTotalExecutionSlots
  occupied : ∀ index, now.isOccupied index = true ↔
    before.isOccupied index = true ∨ index < rounds ∧ Takes num this index

theorem Marked.mark (marked : Marked num this rounds before now) (takes : Takes num this rounds)
    (inside : rounds < before.getTotalExecutionSlots) :
    Marked num this (rounds + 1) before (now.mark rounds) where
  length := (getTotalExecutionSlots_mark _ _).trans marked.length
  occupied := by
    intro index
    rw [isOccupied_mark, marked.occupied, marked.length, Nat.lt_succ_iff_lt_or_eq]
    by_cases same : index = rounds
    · subst same
      simp [takes, inside]
    · have other : ¬ (index : Int) = rounds := by omega
      simp only [same, other, or_false, false_and, false_or]

theorem Marked.skip (marked : Marked num this rounds before now)
    (refused : ¬ Takes num this rounds) : Marked num this (rounds + 1) before now where
  length := marked.length
  occupied := by
    intro index
    rw [marked.occupied, Nat.lt_succ_iff_lt_or_eq]
    by_cases same : index = rounds
    · subst same
      simp [refused]
    · simp [same]

/-- What the first rounds have done. -/
structure Reserving.After (num : Int) (this est : ExecutionSlotTracker) (rounds : Nat)
    (state : Reserving) : Prop where
  reserved : state.reservedSoFar = min (this.freeBefore rounds : Int) (max num 0)
  marked : Marked num this rounds this state.this
  markedEst : Marked num this rounds est state.est

theorem Reserving.After.round (after : state.After num this est rounds)
    (long : this.getTotalExecutionSlots ≤ est.getTotalExecutionSlots) :
    (reserveRound num rounds state).After num this est (rounds + 1) := by
  have reserved := after.reserved
  have count := freeBefore_succ this rounds
  -- a slot that the loop has not come to is free as before
  have free : state.this.slots[rounds]? = some false ↔ this.slots[rounds]? = some false := by
    rw [slots_eq_some_false_iff, slots_eq_some_false_iff, after.marked.length, after.marked.occupied]
    simp
  have taken : state.reservedSoFar < num ∧ state.this.slots[rounds]? = some false ↔
      Takes num this rounds := by
    rw [free, Takes, and_comm]
    refine and_congr_right fun _ => ?_
    omega
  unfold reserveRound
  by_cases takes : Takes num this rounds
  · have inside : rounds < this.getTotalExecutionSlots := (slots_eq_some_false_iff.mp takes.1).1
    have few := takes.2
    rw [if_pos takes.1] at count
    rw [if_pos (taken.mpr takes)]
    exact ⟨by dsimp only; omega, after.marked.mark takes inside,
      after.markedEst.mark takes (inside.trans_le long)⟩
  · rw [if_neg (mt taken.mp takes)]
    refine ⟨?_, after.marked.skip takes, after.markedEst.skip takes⟩
    by_cases isFree : this.slots[rounds]? = some false
    · have many := mt (And.intro isFree) takes
      omega
    · rw [if_neg isFree] at count
      omega

theorem after_reserveRounds (num : Int) (rounds : Nat)
    (long : this.getTotalExecutionSlots ≤ est.getTotalExecutionSlots) :
    (reserveRounds num this est rounds).After num this est rounds := by
  induction rounds with
  | zero =>
    have marked (tracker : ExecutionSlotTracker) : Marked num this 0 tracker tracker :=
      ⟨rfl, by simp⟩
    exact ⟨(min_eq_left (le_max_right _ _)).symm, marked this, marked est⟩
  | succ rounds ih => exact ih.round long

end

variable {this this' : ExecutionSlotTracker}

/-- The slots that are taken are reserved in the tracker and in the subset, and no others. -/
theorem reserveExecutionSlots_eq_some {num : Int} {est est' : ExecutionSlotTracker}
    (step : this.reserveExecutionSlots num est = some (this', est')) :
    num ≤ this.openCount ∧
      (∀ index, this'.isOccupied index = true ↔ this.isOccupied index = true ∨
        Takes num this index) ∧
      ∀ index, est'.isOccupied index = true ↔ est.isOccupied index = true ∨
        Takes num this index := by
  unfold reserveExecutionSlots at step
  split at step
  · cases step
  · rename_i enough
    cases step
    have long : this.getTotalExecutionSlots ≤
        (est.padTo (this.getTotalExecutionSlots - 1)).getTotalExecutionSlots := by
      rw [getTotalExecutionSlots_padTo]
      omega
    have after := after_reserveRounds num this.getTotalExecutionSlots long
    have within : ∀ index, index < this.getTotalExecutionSlots ∧ Takes num this index ↔
        Takes num this index := by
      intro index
      refine and_iff_right_of_imp ?_
      intro takes
      exact (slots_eq_some_false_iff.mp takes.1).1
    refine ⟨Int.not_lt.mp enough, ?_, ?_⟩
    · intro index
      rw [after.marked.occupied, within]
    · intro index
      rw [after.markedEst.occupied, within, isOccupied_padTo]

/-! ## Unreserving slots -/

/-- The first rounds of the loop of `unreserve_execution_slots`. -/
def unreserveRounds (subset this : ExecutionSlotTracker) : Nat → ExecutionSlotTracker
  | 0 => this
  | index + 1 =>
    let before := unreserveRounds subset this index
    if subset.slots[index]? = some true then before.release index else before

/-- `unreserve_execution_slots`; `none` is `SUBSET_TOO_LARGE`. -/
def unreserveExecutionSlots (subset this : ExecutionSlotTracker) : Option ExecutionSlotTracker :=
  if this.getTotalExecutionSlots < subset.getTotalExecutionSlots then none
  else some (unreserveRounds subset this subset.getTotalExecutionSlots)

theorem isOccupied_unreserveRounds (subset this : ExecutionSlotTracker) (rounds index : Nat) :
    (unreserveRounds subset this rounds).isOccupied index = true ↔
      this.isOccupied index = true ∧ ¬ (index < rounds ∧ subset.isOccupied index = true) := by
  induction rounds with
  | zero => simp [unreserveRounds]
  | succ rounds ih =>
    have round : (unreserveRounds subset this (rounds + 1)).isOccupied index = true ↔
        (unreserveRounds subset this rounds).isOccupied index = true ∧
          (index = rounds → subset.slots[rounds]? ≠ some true) := by
      rw [unreserveRounds]
      split
      · simp [isOccupied_release, *]
      · simp [*]
    rw [round, ih, and_assoc, Nat.lt_succ_iff_lt_or_eq]
    refine and_congr_right fun _ => ?_
    by_cases same : index = rounds
    · subst same
      simp [← isOccupied_eq_true_iff]
    · simp [same]

theorem isOccupied_unreserveExecutionSlots {subset : ExecutionSlotTracker}
    (step : unreserveExecutionSlots subset this = some this') (index : Nat) :
    this'.isOccupied index = true ↔
      this.isOccupied index = true ∧ ¬ subset.isOccupied index = true := by
  unfold unreserveExecutionSlots at step
  split at step
  · cases step
  · cases step
    rw [isOccupied_unreserveRounds]
    refine and_congr_right fun _ => not_congr ?_
    exact and_iff_right_of_imp lt_of_isOccupied

end ExecutionSlotTracker

/-! ## Runs -/

/-- A tracker, and the subsets of the reservations that are outstanding. -/
structure Reservations (Job : Type) where
  tracker : ExecutionSlotTracker
  subset : Job → Option ExecutionSlotTracker

/-- A call that changes the tracker. -/
inductive ReservationCall (Job : Type) where
  | addExecutionSlot
  | removeExecutionSlot
  | reserveExecutionSlots (job : Job) (num : Int)
  | unreserveExecutionSlots (job : Job)

namespace Reservations

variable {Job : Type} {state : Reservations Job}

/-- A new tracker. -/
def new (size : Nat) : Reservations Job :=
  ⟨.ofSize size, fun _ => none⟩

/-- The open slots are counted, no slot is held by two jobs, and if there is no reservation all
slots are free. -/
structure Consistent (state : Reservations Job) : Prop where
  counted : state.tracker.openCount = state.tracker.slots.count false
  disjoint : ∀ job other est est', job ≠ other → state.subset job = some est →
    state.subset other = some est' → ∀ index, est.isOccupied index = true →
      est'.isOccupied index = false
  released : (∀ job, state.subset job = none) → ∀ slot ∈ state.tracker.slots, slot = false

/-- A slot is removed only if there is one. -/
def RemovesSome (state : Reservations Job) : ReservationCall Job → Prop
  | .removeExecutionSlot => 0 < state.tracker.getTotalExecutionSlots
  | _ => True

/-- A slot that is free although another job holds it is behind the slots that are reserved, and a
subset that is too large for the tracker holds no slot that is occupied there. -/
def SlotsKept (state : Reservations Job) : ReservationCall Job → Prop
  | .reserveExecutionSlots job num =>
    num ≤ state.tracker.openCount → ∀ other est index, other ≠ job →
      state.subset other = some est → est.isOccupied index = true →
        state.tracker.slots[index]? = some false → num ≤ state.tracker.freeBefore index
  | .unreserveExecutionSlots job =>
    ∀ est, state.subset job = some est →
      est.getTotalExecutionSlots ≤ state.tracker.getTotalExecutionSlots ∨
        ∀ index, est.isOccupied index = true → state.tracker.isOccupied index = false
  | _ => True

/-- The subset of a job holds a slot. -/
def Holds (subset : Job → Option ExecutionSlotTracker) (index : Nat) (job : Job) : Prop :=
  (subset job).any (·.isOccupied index) = true

/-- No slot is held by two jobs, and each occupied slot is held by a job. -/
structure Held (state : Reservations Job) : Prop where
  unique : ∀ index job other, Holds state.subset index job → Holds state.subset index other →
    job = other
  held : ∀ index, state.tracker.isOccupied index = true → ∃ job, Holds state.subset index job

theorem Held.consistent (held : state.Held) : state.Consistent where
  counted := state.tracker.counted
  disjoint := by
    intro job other est est' different atJob atOther index occupied
    by_contra both
    rw [Bool.not_eq_false] at both
    exact different (held.unique index job other (by rw [Holds, atJob]; exact occupied)
      (by rw [Holds, atOther]; exact both))
  released := by
    intro none slot mem
    obtain ⟨index, inside, rfl⟩ := getElem_of_mem mem
    by_contra occupied
    rw [Bool.not_eq_false] at occupied
    have isOccupied : state.tracker.isOccupied index = true := by
      rw [isOccupied_eq_true_iff, getElem?_eq_getElem inside, occupied]
    obtain ⟨job, holds⟩ := held.held index isOccupied
    rw [Holds, none job] at holds
    cases holds

theorem held_new (size : Nat) : (new size : Reservations Job).Held where
  unique := nofun
  held := by
    intro index occupied
    rw [new, isOccupied_ofSize] at occupied
    cases occupied

theorem Held.of_tracker {tracker : ExecutionSlotTracker} (held : state.Held)
    (sub : ∀ index, tracker.isOccupied index = true → state.tracker.isOccupied index = true) :
    (⟨tracker, state.subset⟩ : Reservations Job).Held where
  unique := held.unique
  held := fun index occupied => held.held index (sub index occupied)

variable [DecidableEq Job]

/-- One call.  The caller forgets a subset that it has unreserved, whatever was returned. -/
def step (state : Reservations Job) : ReservationCall Job → Reservations Job
  | .addExecutionSlot => ⟨state.tracker.addExecutionSlot, state.subset⟩
  | .removeExecutionSlot => ⟨state.tracker.removeExecutionSlot.getD state.tracker, state.subset⟩
  | .reserveExecutionSlots job num =>
    match state.tracker.reserveExecutionSlots num ((state.subset job).getD .empty) with
    | none => state
    | some (tracker, est) => ⟨tracker, update state.subset job (some est)⟩
  | .unreserveExecutionSlots job =>
    match state.subset job with
    | none => state
    | some est =>
      ⟨(est.unreserveExecutionSlots state.tracker).getD state.tracker,
        update state.subset job none⟩

section

variable {state : Reservations Job} {job : Job}

/-- A subset is put in the place of another one.  It has slots of the former, and slots that no
other job holds. -/
theorem Held.update {tracker : ExecutionSlotTracker} {next : Option ExecutionSlotTracker}
    (held : state.Held)
    (apart : ∀ index, next.any (·.isOccupied index) = true → ∀ other,
      Holds state.subset index other → other = job)
    (covered : ∀ index, tracker.isOccupied index = true → next.any (·.isOccupied index) = true ∨
      ∃ other, other ≠ job ∧ Holds state.subset index other) :
    (⟨tracker, update state.subset job next⟩ : Reservations Job).Held where
  unique := by
    intro index first second
    unfold Holds
    dsimp only
    rw [update_apply, update_apply]
    split <;> split
    · rename_i isFirst isSecond
      exact fun _ _ => isFirst.trans isSecond.symm
    · exact fun mine theirs => absurd (apart index mine second theirs) ‹_›
    · exact fun theirs mine => absurd (apart index mine first theirs) ‹_›
    · exact held.unique index first second
  held := by
    intro index occupied
    rcases covered index occupied with mine | ⟨other, different, holds⟩
    · refine ⟨job, ?_⟩
      rwa [← update_self job next state.subset] at mine
    · refine ⟨other, ?_⟩
      rwa [Holds, ← update_of_ne different next state.subset] at holds

theorem Held.reserve {num : Int} (held : state.Held)
    (kept : state.SlotsKept (.reserveExecutionSlots job num)) :
    (state.step (.reserveExecutionSlots job num)).Held := by
  unfold step
  dsimp only
  split
  · exact held
  · rename_i tracker est reserved
    obtain ⟨enough, trackerSlots, estSlots⟩ :=
      reserveExecutionSlots_eq_some reserved
    have former : ∀ index, ((state.subset job).getD .empty).isOccupied index = true ↔
        Holds state.subset index job := by
      intro index
      unfold Holds
      cases state.subset job <;> rfl
    apply held.update
    · intro index occupied other holds
      rcases (estSlots index).mp occupied with before | ⟨free, few⟩
      · exact held.unique index other job holds ((former index).mp before)
      · by_contra different
        obtain ⟨est', atOther, both⟩ := (Option.any_eq_true _ _).mp holds
        have many := kept enough other est' index different atOther both free
        omega
    · intro index occupied
      rcases (trackerSlots index).mp occupied with before | takes
      · obtain ⟨owner, holds⟩ := held.held index before
        by_cases own : owner = job
        · subst own
          exact Or.inl ((estSlots index).mpr (Or.inl ((former index).mpr holds)))
        · exact Or.inr ⟨owner, own, holds⟩
      · exact Or.inl ((estSlots index).mpr (Or.inr takes))

theorem Held.unreserve (held : state.Held) (kept : state.SlotsKept (.unreserveExecutionSlots job)) :
    (state.step (.unreserveExecutionSlots job)).Held := by
  unfold step
  dsimp only
  split
  · exact held
  · rename_i est atJob
    apply held.update
    · exact nofun
    · -- What the tracker has left is occupied in it before, and not held by the job.
      intro index occupied
      have left : state.tracker.isOccupied index = true ∧ ¬ est.isOccupied index = true := by
        cases unreserved : est.unreserveExecutionSlots state.tracker with
        | some tracker =>
          rw [unreserved] at occupied
          exact (isOccupied_unreserveExecutionSlots unreserved index).mp
            occupied
        | none =>
          rw [unreserved] at occupied
          refine ⟨occupied, ?_⟩
          rcases kept est atJob with fits | unused
          · rw [unreserveExecutionSlots, if_neg (Nat.not_lt.mpr fits)]
              at unreserved
            cases unreserved
          · intro holds
            have free := unused index holds
            rw [show state.tracker.isOccupied index = true from occupied] at free
            cases free
      obtain ⟨owner, holds⟩ := held.held index left.1
      refine Or.inr ⟨owner, ?_, holds⟩
      rintro rfl
      rw [Holds, atJob] at holds
      exact left.2 holds

theorem Held.step {call : ReservationCall Job} (held : state.Held) (kept : state.SlotsKept call) :
    (state.step call).Held := by
  cases call with
  | addExecutionSlot =>
    refine held.of_tracker fun index occupied => ?_
    rw [isOccupied_addExecutionSlot] at occupied
    exact occupied
  | removeExecutionSlot =>
    refine held.of_tracker fun index occupied => ?_
    cases removed : state.tracker.removeExecutionSlot with
    | none =>
      rw [removed] at occupied
      exact occupied
    | some tracker =>
      rw [removed] at occupied
      exact isOccupied_of_removeExecutionSlot removed occupied
  | reserveExecutionSlots job num => exact held.reserve kept
  | unreserveExecutionSlots job => exact held.unreserve kept

end

/-- In every run that reserves no slot which another job still holds, and unreserves no subset
that has become too large, the reservations stay consistent. -/
theorem reservations_consistent (size : Nat) (calls : List (ReservationCall Job))
    (allowed : Admissible step (fun state call => state.RemovesSome call ∧ state.SlotsKept call)
      (new size) calls) :
    (run step (new size) calls).Consistent := by
  have held : (run step (new size) calls).Held := by
    refine invariant Held (held_new size) ?_ allowed
    rintro state call held ⟨_, kept⟩
    exact held.step kept
  exact held.consistent

/-- Two jobs reserve slots, the tracker grows, and both are freed. -/
def twoJobs : List (ReservationCall Nat) :=
  [.reserveExecutionSlots 1 2, .addExecutionSlot, .reserveExecutionSlots 2 2,
    .unreserveExecutionSlots 1, .unreserveExecutionSlots 2]

theorem reservations_consistent_twoJobs :
    (run step (new 3) twoJobs).tracker.slots = [false, false, false, false] ∧
      (run step (new 3) twoJobs).Consistent := by
  refine ⟨rfl, reservations_consistent 3 twoJobs ⟨⟨trivial, ?_⟩, ⟨trivial, trivial⟩, ⟨trivial, ?_⟩,
    ⟨trivial, ?_⟩, ⟨trivial, ?_⟩, trivial⟩⟩
  · rintro _ other est index _ ⟨⟩
  · intro _ other est index different atOther holds free
    by_cases first : other = 1
    · subst first
      cases atOther
      rcases index with _ | _ | _ | index
      · cases free
      · cases free
      · cases holds
      · cases holds
    · have unheld := (update_of_ne first _ _).symm.trans atOther
      cases unheld
  · rintro est ⟨⟩
    exact Or.inl (by decide)
  · rintro est ⟨⟩
    exact Or.inl (by decide)

/-- A slot that the first job holds is removed and added again, and the second job reserves it. -/
theorem regrown_slot_held_twice :
    ¬ ∀ (size : Nat) (calls : List (ReservationCall Bool)),
      Admissible step RemovesSome (new size) calls → (run step (new size) calls).Consistent := by
  intro consistent
  have disjoint := (consistent 1
    [.reserveExecutionSlots true 1, .removeExecutionSlot, .addExecutionSlot,
      .reserveExecutionSlots false 1]
    ⟨trivial, Nat.zero_lt_one, trivial, trivial, trivial⟩).disjoint
  have unheld := disjoint true false _ _ (by decide) rfl rfl 0 rfl
  cases unheld

end Reservations

end Torque.Node
