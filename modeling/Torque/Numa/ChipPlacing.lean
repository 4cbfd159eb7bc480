import Torque.Numa.Growth

/-!
# Placing tasks on a chip adds records

Each function that places something on a chip makes the chip and the allocation
it is given grow together.  `place_task` and `partially_place_task` are called
for tasks that do not ask for chips of their own, `spread_place` for those that
do, and `place_all_execution_slots` for both.
-/

namespace Torque.Numa

open Torque.Transition Traced

/-- Tasks that do not ask for chips of their own. -/
def PlaceType.shared (placeType : PlaceType) : Prop :=
  placeType.practical ≠ .chip

theorem PlaceType.shared_ne {placeType : PlaceType} (shared : placeType.shared) :
    placeType ≠ .socket ∧ placeType ≠ .node := by
  constructor
  · rintro rfl
    exact shared rfl
  · rintro rfl
    exact shared rfl

variable {F : Type} [Floating F] {restored : Prop} (chip : Chip) (r : Req)
  (remaining taskAlloc master : Allocation)

/-! ## Whole tasks -/

theorem Chip.placeOneTask_books (enough : r.memory ≤ chip.availableMemory) :
    Under Look.Steady (chip.placeOneTask F r master) fun task =>
      chip.Books task ∧ task.alloc.coresOnly = r.useCores := by
  have start : chip.Books
      { chip := { chip with availableMemory := chip.availableMemory - r.memory }
        alloc := { jobid := master.jobid, coresOnly := r.useCores, placeCpus := master.placeCpus,
                   memory := r.memory } } :=
    Books.start rfl rfl rfl enough
  refine Under.bind (Booking.placeProcessors_under r.executionSlots r.toRsv
    master.placeType) fun b leads => Under.pure ?_
  have all := leads.trans (b.placeAccelerators_leads (.ofReq r))
  exact ⟨start.leads all, all.coresOnly⟩

/-- What the loop of `place_task` keeps up. -/
structure Chip.Fills (chip : Chip) (r : Req) (jobid : String) (b : Booking) : Prop
    extends chip.Books b where
  kind : b.alloc.coresOnly = r.useCores
  own : b.alloc.jobid = jobid

theorem Booking.placeTasks_fills {chip : Chip} {jobid : String} (rounds : Nat) {b : Booking}
    (fills : chip.Fills r jobid b) :
    Under Look.Steady (b.placeTasks F r master rounds) fun done =>
      chip.Fills r jobid done.1 ∧ (done.2 = 0 → done.1 = b) := by
  induction rounds generalizing b with
  | zero => exact Under.pure ⟨fills, fun _ => rfl⟩
  | succ rounds ih =>
    unfold placeTasks
    split
    · rename_i fits
      have enough : r.memory ≤ b.chip.availableMemory := by
        simp only [Chip.taskWillFit, decide_eq_true_eq] at fits
        exact fits.1
      refine Under.bind (b.chip.placeOneTask_books r master enough) fun task made => ?_
      have next : chip.Fills r jobid ⟨task.chip, b.alloc.add task.alloc⟩ :=
        ⟨fills.toBooks.add made.1 (made.2.trans fills.kind.symm), fills.kind, fills.own⟩
      split
      · exact Under.pure ⟨next, fun none => absurd none Nat.one_ne_zero⟩
      · refine Under.bind (ih next) fun more done => Under.pure ?_
        exact ⟨done.1, fun none => absurd none (Nat.succ_ne_zero _)⟩
    · exact Under.pure ⟨fills, fun _ => rfl⟩

theorem Chip.placeTask_grows (toPlace : Int) (shared : master.placeType.shared) :
    Under (Look.Fair restored) (chip.placeTask F r master toPlace) fun done =>
      Grows restored master.jobid [chip] [done.chip] master done.master ∧
        done.master.placeType = master.placeType := by
  unfold placeTask
  split
  · have start : chip.Fills r master.jobid
        ⟨chip, { jobid := master.jobid, placeType := master.placeType,
                 placeCpus := master.placeCpus, coresOnly := r.useCores }⟩ :=
      ⟨Books.start rfl rfl rfl (Nat.zero_le _), rfl, rfl⟩
    refine Under.bind ((Booking.placeTasks_fills r master toPlace.toNat start).strengthen
      fun _ fair => fair.1) fun done made => ?_
    have mark : (done.1.chip.chipExclusive || decide (master.placeType.practical = .chip)) =
        chip.chipExclusive := by
      rw [decide_eq_false shared, Bool.or_false, made.1.exclusive]
    split
    · apply Under.pure
      exact ⟨made.1.grows made.1.own _ (fun _ _ => mark) master, rfl⟩
    · rename_i none
      apply Under.pure
      rw [made.2 (Nat.eq_zero_of_not_pos none)]
      exact ⟨Grows.refl _ _, rfl⟩
  · exact Under.pure ⟨Grows.refl _ _, rfl⟩

/-! ## Parts of a task -/

theorem Chip.takeMemory_books (jobid : String) :
    chip.Books (chip.takeMemory remaining jobid).1 := by
  unfold takeMemory
  split
  · apply Books.start
    · simp only [Nat.sub_self]
    · rfl
    · rfl
    · exact Nat.le_refl _
  · rename_i enough
    exact Books.start rfl rfl rfl (Nat.le_of_not_lt enough)

/-- An allocation that is not worth a record lists nothing. -/
theorem Allocation.blank_of_not_something {a : Allocation} (nothing : a.something = false) :
    a.resources = [] ∧ a.memory = 0 := by
  simp only [something, Bool.or_eq_false_iff, Bool.not_eq_false', List.isEmpty_iff,
    decide_eq_false_iff_not, Nat.not_lt, Nat.le_zero] at nothing
  obtain ⟨⟨⟨⟨cpus, places⟩, memory⟩, gpus⟩, mics⟩ := nothing
  refine ⟨?_, memory⟩
  simp [resources, processors, cpus, places, gpus, mics]

/-- The chip of a part when the part is taken back. -/
def PlacedPart.takenBack (part : PlacedPart) (jobid : String) : Chip :=
  if part.placedSomething then part.chip.removeLastAllocation jobid else part.chip

theorem Chip.partiallyPlaceTask_grows (shared : remaining.placeType.shared) :
    Under (Look.Fair restored) (chip.partiallyPlaceTask F remaining taskAlloc) fun part =>
      Grows restored taskAlloc.jobid [chip] [part.chip] taskAlloc part.taskAlloc ∧
        Extends restored taskAlloc.jobid chip (part.takenBack taskAlloc.jobid) ∧
        part.remaining.placeType = remaining.placeType := by
  have memory := chip.takeMemory_books remaining taskAlloc.jobid
  have opened : (chip.takeMemory remaining taskAlloc.jobid).1.alloc.jobid = taskAlloc.jobid ∧
      (chip.takeMemory remaining taskAlloc.jobid).1.alloc.coresOnly = remaining.coresOnly ∧
      (chip.takeMemory remaining taskAlloc.jobid).2.placeType = remaining.placeType := by
    unfold takeMemory
    split
    · exact ⟨rfl, rfl, rfl⟩
    · exact ⟨rfl, rfl, rfl⟩
  unfold partiallyPlaceTask
  generalize chip.takeMemory remaining taskAlloc.jobid = start at memory opened ⊢
  obtain ⟨own, kind, placeType⟩ := opened
  have processors : Under (Look.Fair restored) (start.1.placeProcessors F remaining.cpus
      (if 0 < remaining.placeCpus then remaining.placeCpus else remaining.cpus)
      remaining.coresOnly remaining.placeType) (Booking.Leads start.1) := by
    rw [← kind]
    exact (Booking.placeProcessors_under _ _ _).strengthen fun _ fair => fair.1
  refine Under.bind processors fun b leads => ?_
  have all := leads.trans (b.placeAccelerators_leads start.2)
  have kept : (b.placeAccelerators start.2).2.placeType = start.2.placeType := rfl
  generalize b.placeAccelerators start.2 = done at all kept
  have books := memory.leads all
  have exclusive : (done.1.chip.chipExclusive ||
      decide (remaining.placeType = .socket ∨ remaining.placeType = .node)) =
        chip.chipExclusive := by
    rw [decide_eq_false (not_or.mpr (PlaceType.shared_ne shared)), Bool.or_false, books.exclusive]
  have mine : done.1.alloc.jobid = taskAlloc.jobid := all.jobid.trans own
  dsimp only
  rw [exclusive]
  split
  · apply Under.pure
    refine ⟨?_, books.takenBack mine, kept.trans placeType⟩
    exact (books.grows mine _ (fun _ _ => rfl) taskAlloc).relabel rfl rfl rfl
  · rename_i nothing
    have blank := Allocation.blank_of_not_something (Bool.eq_false_of_not_eq_true nothing)
    have same : ({ done.1.chip with chipExclusive := chip.chipExclusive } : Chip) = done.1.chip := by
      rw [← books.exclusive]
    have forgotten : Extends restored taskAlloc.jobid chip
        { done.1.chip with chipExclusive := chip.chipExclusive } := by
      rw [same]
      exact books.forget blank.1 blank.2
    apply Under.pure
    refine ⟨?_, forgotten, kept.trans placeType⟩
    exact (Grows.keep (List.Forall₂.cons forgotten List.Forall₂.nil) taskAlloc).relabel rfl rfl rfl

/-! ## Chips of their own -/

theorem Chip.spreadSlots_books (slotsPer : Int) (extra : Bool) :
    chip.Books (chip.spreadSlots F taskAlloc slotsPer extra) ∧
      (chip.spreadSlots F taskAlloc slotsPer extra).alloc.jobid = taskAlloc.jobid := by
  unfold spreadSlots
  dsimp only
  generalize (if extra then slotsPer + 1 else slotsPer) = slots
  split
  · have start : chip.Books ⟨chip, { jobid := taskAlloc.jobid, placeType := taskAlloc.placeType,
                                     coresOnly := true }⟩ :=
      Books.start rfl rfl rfl (Nat.zero_le _)
    have leads := fun step : F => Booking.spreadCores_leads step slots.toNat (Floating.ofInt 0)
      (b := ⟨chip, { jobid := taskAlloc.jobid, placeType := taskAlloc.placeType,
                     coresOnly := true }⟩) rfl
    exact ⟨start.leads (leads _), (leads _).jobid⟩
  · have start : chip.Books ⟨chip, { jobid := taskAlloc.jobid, placeType := taskAlloc.placeType }⟩ :=
      Books.start rfl rfl rfl (Nat.zero_le _)
    have leads := Booking.spreadThreads_leads slotsPer extra
      (b := ⟨chip, { jobid := taskAlloc.jobid, placeType := taskAlloc.placeType }⟩) rfl
    exact ⟨start.leads leads, leads.jobid⟩

theorem Chip.spreadPlace_grows (restored : Prop) (taskAlloc : Allocation)
    (slotsPer slotsRemainder : Int) :
    Grows restored taskAlloc.jobid [chip]
      [(chip.spreadPlace F taskAlloc slotsPer slotsRemainder).chip] taskAlloc
      (chip.spreadPlace F taskAlloc slotsPer slotsRemainder).taskAlloc := by
  unfold spreadPlace
  split
  · rename_i free
    have empty : chip.allocations = [] := by
      simpa [isCompletelyFree] using free.1
    have books := chip.spreadSlots_books (F := F) taskAlloc slotsPer (decide (0 < slotsRemainder))
    generalize chip.spreadSlots F taskAlloc slotsPer (decide (0 < slotsRemainder)) = done at books
    have aggregated : aggregateAllocation done.alloc done.chip.allocations =
        done.chip.allocations ++ [done.alloc] := by
      rw [books.1.records, empty]
      rfl
    dsimp only
    rw [aggregated]
    apply books.1.grows books.2 true
    rintro _ ⟨a, mem, _⟩
    rw [empty] at mem
    contradiction
  · exact Grows.refl _ _

theorem Chip.placeAllExecutionSlots_grows :
    Under (Look.Fair restored) (chip.placeAllExecutionSlots r master) fun done =>
      Grows restored master.jobid [chip] [done.1] master done.2 := by
  have look : Under (Look.Fair restored)
      (Traced.record (.all chip master.jobid master.coresOnly))
      fun _ => (Look.all chip master.jobid master.coresOnly).Fair restored :=
    Under.record fun fair => fair
  refine Under.bind look fun _ fair => Under.pure ?_
  have start : chip.Books ⟨chip, { jobid := master.jobid, coresOnly := master.coresOnly }⟩ :=
    Books.start rfl rfl rfl (Nat.zero_le _)
  have accelerated := Booking.placeAccelerators_leads
    ⟨chip, { jobid := master.jobid, coresOnly := master.coresOnly }⟩ (.ofReq r)
  have cores := (ChipLayout.placeAccelerators_records
    ⟨chip, { jobid := master.jobid, coresOnly := master.coresOnly }⟩ (.ofReq r)).2.2
  have all := accelerated.trans (Booking.reserveAll_leads (by
    intro single unit mem
    rw [Chip.units, cores] at mem
    rcases fair.1 with whole | idle
    · exact absurd (whole.symm.trans single) (by decide)
    · exact idle unit mem))
  apply (start.leads all).grows all.jobid true
  rintro wanted ⟨a, mem, other⟩
  rcases fair.2 wanted with exclusive | own
  · exact exclusive.symm
  · exact absurd (own a mem) other

end Torque.Numa
