import Mathlib.Algebra.Group.Prod
import Torque.Arith.Binary32
import Torque.Numa.ChipPlacing

/-!
# A task in parts

`partially_place_task` puts as much of a task on a chip as there is room for and takes it off
what remains of the task.  From any states of the chips, steady or not, what lies on the chips
that were visited and what remains make up the task.

What remains is negative if more slots are pinned than the task has.  The scans choose no more
slots than they are asked for, and the slots to pin are those at the rounded sums of a step.
Where the sums fall behind, one slot too many is in front of the end.
-/

namespace Torque.Numa

open Torque.Transition List Allocation Traced

variable {wanted left : Int}

/-! ## The scans choose no more than they are asked for -/

theorem length_openUnits (units : List Pu) (pos : 0 < wanted) :
    (openUnits units wanted).length ≤ wanted := by
  obtain ⟨n, same, few⟩ := openUnits_eq_take units wanted
  have := length_take_le n ((units.filter Pu.idle).map Pu.index)
  rw [same]
  exact (Int.ofNat_le.2 this).trans (few pos)

theorem length_contiguousUnits {units : List Pu} {slots out : List Int} (pos : 0 < left)
    (sum : slots.length + left = wanted)
    (found : contiguousUnits wanted units slots left = some out) : out.length = wanted := by
  induction units generalizing slots left with
  | nil => cases found
  | cons unit units ih =>
    unfold contiguousUnits at found
    split_ifs at found with busy none last last
    · exact ih pos sum found
    · cases found
      simp only [length_singleton]
      omega
    · refine ih (by omega) ?_ found
      simp only [length_singleton]
      omega
    · cases found
      rw [length_append, length_singleton]
      omega
    · refine ih (by omega) ?_ found
      rw [length_append, length_singleton]
      omega

theorem mem_contiguousUnits {units : List Pu} {slots out : List Int}
    (found : contiguousUnits wanted units slots left = some out) :
    ∀ index ∈ out, index ∈ slots ∨ index ∈ units.map Pu.index := by
  induction units generalizing slots left with
  | nil => cases found
  | cons unit units ih =>
    unfold contiguousUnits at found
    split_ifs at found with busy none last last
    · exact fun index mem => (ih found index mem).imp_right (mem_cons_of_mem _)
    · cases found
      simp
    · intro index mem
      rcases ih found index mem with same | later
      · exact .inr (mem_singleton.mp same ▸ mem_cons_self)
      · exact .inr (mem_cons_of_mem _ later)
    · cases found
      intro index mem
      rw [mem_append, mem_singleton] at mem
      rcases mem with earlier | rfl
      · exact .inl earlier
      · exact .inr mem_cons_self
    · intro index mem
      rcases ih found index mem with earlier | later
      · rw [mem_append, mem_singleton] at earlier
        rcases earlier with earlier | rfl
        · exact .inl earlier
        · exact .inr mem_cons_self
      · exact .inr (mem_cons_of_mem _ later)

theorem Chip.mem_threadVector {chip : Chip} :
    ∀ index ∈ chip.getContiguousThreadVector wanted, index ∈ chip.units.map Pu.index := by
  intro index mem
  unfold getContiguousThreadVector at mem
  split_ifs at mem with zero
  · exact absurd mem not_mem_nil
  · cases found : contiguousUnits wanted chip.units [] wanted with
    | none =>
      obtain ⟨n, same, -⟩ := openUnits_eq_take chip.units wanted
      rw [found, Option.getD_none, same] at mem
      exact (filter_sublist.map Pu.index).subset (mem_of_mem_take mem)
    | some out =>
      rw [found] at mem
      exact (mem_contiguousUnits found index mem).resolve_left not_mem_nil

theorem Chip.length_threadVector (chip : Chip) (pos : 0 ≤ wanted) :
    (chip.getContiguousThreadVector wanted).length ≤ wanted := by
  unfold getContiguousThreadVector
  split_ifs with zero
  · exact pos
  · cases found : contiguousUnits wanted chip.units [] wanted with
    | none => exact length_openUnits chip.units (by omega)
    | some out => exact (length_contiguousUnits (by omega) (by simp) found).le

theorem Chip.length_coreVector (chip : Chip) (pos : 0 ≤ wanted) :
    (chip.getContiguousCoreVector wanted).length ≤ wanted := by
  unfold getContiguousCoreVector
  split_ifs with zero
  · exact pos
  · cases found : contiguousCores wanted chip.cores 0 [] wanted with
    | none =>
      have := length_take_le wanted.toNat (freePositions chip.cores 0)
      rw [Option.getD_none, freeCores_eq_take]
      omega
    | some out => exact (contiguousCores_spec found).2 (by omega) (by simp)

theorem freePositions_free {cores : List Core} {start position : Nat}
    (mem : position ∈ freePositions cores start) :
    start ≤ position ∧ ∃ core, cores[position - start]? = some core ∧ core.free = true := by
  induction cores generalizing start with
  | nil => cases mem
  | cons core cores ih =>
    have later (mem : position ∈ freePositions cores (start + 1)) :
        start ≤ position ∧ ∃ other, (core :: cores)[position - start]? = some other ∧
          other.free = true := by
      obtain ⟨behind, other, here, free⟩ := ih mem
      obtain ⟨distance, rfl⟩ := Nat.exists_eq_add_of_le behind
      refine ⟨by omega, other, ?_, free⟩
      rw [show start + 1 + distance - start = distance + 1 by omega, getElem?_cons_succ]
      rwa [Nat.add_sub_cancel_left] at here
    unfold freePositions at mem
    split_ifs at mem with free
    · rcases mem_cons.mp mem with rfl | mem
      · exact ⟨Nat.le_refl _, core, by simp, free⟩
      · exact later mem
    · exact later mem

theorem nodup_freePositions (cores : List Core) (start : Nat) :
    (freePositions cores start).Nodup := by
  induction cores generalizing start with
  | nil => exact nodup_nil
  | cons core cores ih =>
    unfold freePositions
    split_ifs
    · refine nodup_cons.mpr ⟨fun mem => ?_, ih _⟩
      have := (freePositions_free mem).1
      omega
    · exact ih _

/-! ## What is pinned -/

/-- So many of the positions are met, and one more, if those that are expected increase so far
and the last of them is in front of the end. -/
theorem Booking.lt_hits_iff {expected : Nat → Int} (more left position pins : Nat) :
    more < hits expected left position pins ↔
      position ≤ expected pins ∧
        (∀ i < more, expected (pins + i) < expected (pins + i + 1)) ∧
          expected (pins + more) < position + left := by
  induction left generalizing more position pins with
  | zero =>
    refine iff_of_false (Nat.not_lt_zero _) ?_
    rintro ⟨first, increasing, last⟩
    have later : ∀ i ≤ more, expected pins ≤ expected (pins + i) := by
      intro i le
      induction i with
      | zero => exact Int.le_refl _
      | succ i ih => exact (ih (by omega)).trans (increasing i le).le
    have := later more (Nat.le_refl _)
    omega
  | succ left ih =>
    unfold hits
    split_ifs with here
    · cases more with
      | zero =>
        refine iff_of_true (Nat.succ_pos _) ⟨here.le, by simp, ?_⟩
        rw [Nat.add_zero]
        omega
      | succ more =>
        rw [Nat.succ_lt_succ_iff, ih, Nat.forall_lt_succ_left']
        simp only [Nat.add_zero, Nat.add_assoc, Nat.add_comm 1, ← here]
        push_cast
        constructor
        · rintro ⟨next, rest, last⟩
          exact ⟨Int.le_refl _, ⟨by omega, rest⟩, by omega⟩
        · rintro ⟨-, ⟨next, rest⟩, last⟩
          exact ⟨by omega, rest, by omega⟩
    · rw [ih]
      push_cast
      constructor
      · rintro ⟨first, rest, last⟩
        exact ⟨by omega, rest, by omega⟩
      · rintro ⟨first, rest, last⟩
        exact ⟨by omega, rest, by omega⟩

theorem Booking.hits_le (expected : Nat → Int) (left position pins : Nat) :
    hits expected left position pins ≤ left := by
  induction left generalizing position pins with
  | zero => exact Nat.le_refl 0
  | succ left ih =>
    unfold hits
    split_ifs
    · exact Nat.succ_le_succ (ih _ _)
    · exact (ih _ _).trans (Nat.le_succ _)

theorem setFirst_indices (p : Pu → Bool) (busy : Bool) (units : List Pu) :
    (setFirst p busy units).map Pu.index = units.map Pu.index := by
  induction units with
  | nil => rfl
  | cons unit units ih =>
    unfold setFirst
    split_ifs
    · rfl
    · rw [map_cons, ih, map_cons]

section

variable (F : Type) [Floating F]

/-- One slot is pinned beyond those of the task: the step leads from one slot to a later one, and
after all slots of the task it leads to one of those that were found. -/
def Overruns (slotsPerTask toRsv : Int) (found : Nat) : Prop :=
  0 < slotsPerTask ∧ slotsPerTask < toRsv ∧
    0 ≤ Floating.round (Booking.pinIndexAt (slotStep F slotsPerTask toRsv) 0) ∧
    (∀ pins < slotsPerTask.toNat,
      Floating.round (Booking.pinIndexAt (slotStep F slotsPerTask toRsv) pins) <
        Floating.round (Booking.pinIndexAt (slotStep F slotsPerTask toRsv) (pins + 1))) ∧
    Floating.round (Booking.pinIndexAt (slotStep F slotsPerTask toRsv) slotsPerTask.toNat) < found

instance (slotsPerTask toRsv : Int) (found : Nat) :
    Decidable (Overruns F slotsPerTask toRsv found) :=
  inferInstanceAs (Decidable (_ ∧ _ ∧ _ ∧ _ ∧ _))

/-- How many slots the scan finds. -/
def Chip.slotsFound (chip : Chip) (coresOnly : Bool) (wanted : Int) : Nat :=
  if coresOnly then (chip.getContiguousCoreVector wanted).length
  else (chip.getContiguousThreadVector wanted).length

/-- More slots of the chip would be pinned than remain to be placed.  The loop for legacy
requests pins no more slots than it has asked for. -/
def Chip.Overruns (chip : Chip) (remaining : Allocation) : Prop :=
  (remaining.coresOnly = true ∨
    ¬ (remaining.placeType = .legacy ∨ remaining.placeType = .legacy2)) ∧
    Numa.Overruns F remaining.cpus remaining.placeCpus
      (chip.slotsFound remaining.coresOnly (max remaining.cpus remaining.placeCpus))

instance (chip : Chip) (remaining : Allocation) : Decidable (chip.Overruns F remaining) :=
  inferInstanceAs (Decidable (_ ∧ _))

end

namespace Booking

variable {F : Type} [Floating F] {b b' b'' : Booking} {m n : Nat} {slotsPerTask toRsv : Int}

/-- So many processors are entered to be used, and nothing but processors is entered. -/
structure Pins (n : Nat) (b b' : Booking) : Prop where
  records : b'.chip.allocations = b.chip.allocations
  cpus : b'.alloc.cpuIndices.length = b.alloc.cpuIndices.length + n
  rest : (b'.alloc.memory, b'.alloc.gpuIndices, b'.alloc.micIndices) =
    (b.alloc.memory, b.alloc.gpuIndices, b.alloc.micIndices)

theorem Pins.refl (b : Booking) : Pins 0 b b :=
  ⟨rfl, rfl, rfl⟩

theorem Pins.trans (first : Pins m b b') (second : Pins n b' b'') : Pins (m + n) b b'' := by
  have := first.cpus
  have := second.cpus
  exact ⟨second.records.trans first.records, by omega, second.rest.trans first.rest⟩

theorem enter_pins {chip : Chip} (records : chip.allocations = b.chip.allocations) (pinned : Bool)
    (index cores threads : Int) :
    Pins pinned.toNat b ⟨chip, b.alloc.enter pinned index cores threads⟩ := by
  cases pinned with
  | false => exact ⟨records, rfl, rfl⟩
  | true => exact ⟨records, by simp [enter], rfl⟩

theorem reserveUnit_indices {cores : List Core} {index : Int}
    (known : index ∈ (cores.flatMap Core.units).map Pu.index) :
    ∃ cores', reserveUnit index cores = some cores' ∧
      (cores'.flatMap Core.units).map Pu.index = (cores.flatMap Core.units).map Pu.index := by
  induction cores with
  | nil => cases known
  | cons core cores ih =>
    unfold reserveUnit Core.reserveProcessingUnit
    split_ifs with here
    · exact ⟨_, rfl, by simp [setFirst_indices]⟩
    · have later : index ∈ (cores.flatMap Core.units).map Pu.index := by
        rw [flatMap_cons, map_append, mem_append] at known
        refine known.resolve_left fun mem => here ?_
        obtain ⟨unit, mem, same⟩ := mem_map.mp mem
        exact any_eq_true.mpr ⟨unit, mem, decide_eq_true same⟩
      obtain ⟨cores', taken, kept⟩ := ih later
      exact ⟨core :: cores', by simp [taken], by simp [kept]⟩

theorem takeUnit_pins (pinned : Bool) {index : Int} (known : index ∈ b.chip.units.map Pu.index) :
    Pins pinned.toNat b (b.takeUnit pinned index) ∧
      (b.takeUnit pinned index).chip.units.map Pu.index = b.chip.units.map Pu.index := by
  obtain ⟨cores, taken, kept⟩ := reserveUnit_indices known
  unfold takeUnit
  rw [taken]
  refine ⟨?_, kept⟩
  apply enter_pins
  rfl

theorem takeCore_pins (pinned : Bool) {position : Nat} {core : Core}
    (here : b.chip.cores[position]? = some core) (free : core.free = true) :
    Pins pinned.toNat b (b.takeCore pinned position) ∧
      ∀ other ≠ position,
        (b.takeCore pinned position).chip.cores[other]? = b.chip.cores[other]? := by
  unfold takeCore
  simp only [here, free, if_true]
  refine ⟨?_, fun other differs => getElem?_set_ne differs.symm⟩
  apply enter_pins
  rfl

/-- A reservation of units one after the other, as long as each of them can be had. -/
theorem foldl_pins {σ : Type} (take : Bool → Booking → σ → Booking)
    (ready : Booking → List σ → Prop)
    (taken : ∀ pinned b slot slots, ready b (slot :: slots) →
      Pins pinned.toNat b (take pinned b slot) ∧ ready (take pinned b slot) slots)
    (picks : List (Bool × σ)) (b : Booking) (start : ready b (picks.map Prod.snd)) :
    Pins (picks.countP Prod.fst) b (picks.foldl (fun b pick => take pick.1 b pick.2) b) := by
  induction picks generalizing b with
  | nil => exact Pins.refl b
  | cons pick picks ih =>
    obtain ⟨first, others⟩ := taken pick.1 b pick.2 _ start
    have all := first.trans (ih _ others)
    have count : (pick :: picks).countP Prod.fst = pick.1.toNat + picks.countP Prod.fst := by
      cases one : pick.1 <;> simp [one, Nat.add_comm]
    rw [count]
    exact all

/-- The loop over the slots that were found pins too many exactly if it overruns. -/
theorem pinSlots_pins {σ : Type} (take : Bool → Booking → σ → Booking)
    (ready : Booking → List σ → Prop)
    (taken : ∀ pinned b slot slots, ready b (slot :: slots) →
      Pins pinned.toNat b (take pinned b slot) ∧ ready (take pinned b slot) slots)
    (nonneg : 0 ≤ slotsPerTask) {slots : List σ} (few : slots.length ≤ max slotsPerTask toRsv)
    (start : ready b slots) :
    ∃ n : Nat, Pins n b (pinSlots F (take true) (take false) slotsPerTask
        (slotStep F slotsPerTask toRsv) slots 0 (Floating.ofInt 0) b) ∧
      (slotsPerTask < n ↔ Overruns F slotsPerTask toRsv slots.length) := by
  obtain ⟨picks, listed, count, result⟩ := pinSlots_eq_foldl take slotsPerTask
    (slotStep F slotsPerTask toRsv) slots 0 0 b
  refine ⟨picks.countP Prod.fst, ?_, ?_⟩
  · refine (congrArg (Pins _ b) result).mpr (foldl_pins take ready taken picks b ?_)
    rw [listed]
    exact start
  · unfold Overruns
    rw [count]
    split_ifs with some
    · by_cases more : slotsPerTask < toRsv
      · obtain ⟨wanted, rfl⟩ := Int.eq_ofNat_of_zero_le nonneg
        rw [Int.toNat_natCast, Nat.cast_lt, lt_hits_iff]
        simp only [Nat.zero_add, some, more, true_and, Nat.cast_zero, Int.zero_add]
      · have := hits_le
          (fun pins => Floating.round (Booking.pinIndexAt (slotStep F slotsPerTask toRsv) pins))
          slots.length 0 0
        exact iff_of_false (by omega) fun overruns => more overruns.2.1
    · exact iff_of_false (by simpa using nonneg) fun overruns => some overruns.1

theorem legacySlots_pins (slots : List Int) (position : Nat) (pinIndex : F) (b : Booking) :
    ∃ n ≤ slots.length, Pins n b (legacySlots F slots position pinIndex b) := by
  induction slots generalizing position pinIndex b with
  | nil => exact ⟨0, Nat.le_refl 0, Pins.refl b⟩
  | cons slot slots ih =>
    have one : ∃ n ≤ 1, Pins n b (b.reservePlaceThread slot) := by
      unfold reservePlaceThread takeUnit
      split
      · refine ⟨1, Nat.le_refl 1, ?_⟩
        refine @enter_pins b _ ?_ true slot 0 1
        rfl
      · exact ⟨0, Nat.zero_le 1, Pins.refl b⟩
    unfold legacySlots
    split_ifs
    · obtain ⟨m, few, first⟩ := one
      obtain ⟨n, less, rest⟩ := ih (position + 1) (Floating.add pinIndex (Floating.ofInt 1))
        (b.reservePlaceThread slot)
      exact ⟨m + n, by rw [length_cons]; omega, first.trans rest⟩
    · obtain ⟨n, less, rest⟩ := ih (position + 1) pinIndex b
      exact ⟨n, less.trans (Nat.le_succ _), rest⟩

theorem placeTaskForLegacyThreads_pins (nonneg : 0 ≤ slotsPerTask) (placeType : PlaceType)
    (b : Booking) : ∃ n : Nat, Pins n b (b.placeTaskForLegacyThreads F slotsPerTask placeType) ∧
      n ≤ slotsPerTask := by
  unfold placeTaskForLegacyThreads
  split_ifs
  · have named := b.chip.length_coreVector nonneg
    have ids := length_filterMap_le (fun position => b.chip.cores[position]?.map Core.id)
      (b.chip.getContiguousCoreVector slotsPerTask)
    obtain ⟨n, less, pins⟩ := legacySlots_pins _ 0 (Floating.ofInt 0 : F) b
    exact ⟨n, pins, by omega⟩
  · have few : (b.chip.getOpenThreadVector slotsPerTask).length ≤ slotsPerTask := by
      unfold Chip.getOpenThreadVector
      split_ifs with zero
      · exact nonneg
      · exact length_openUnits b.chip.units (by omega)
    obtain ⟨n, less, pins⟩ := legacySlots_pins _ 0 (Floating.ofInt 0 : F) b
    exact ⟨n, pins, by omega⟩

/-- However the processors are found, more are pinned than the task has slots exactly if the
loop overruns. -/
theorem placeProcessors_pins (nonneg : 0 ≤ slotsPerTask) (toRsv : Int) (coresOnly : Bool)
    (placeType : PlaceType) (b : Booking) :
    ∃ n : Nat, Pins n b (b.placeProcessors F slotsPerTask toRsv coresOnly placeType).value ∧
      (slotsPerTask < n ↔ (coresOnly = true ∨ ¬ (placeType = .legacy ∨ placeType = .legacy2)) ∧
        Overruns F slotsPerTask toRsv
          (b.chip.slotsFound coresOnly (max slotsPerTask toRsv))) := by
  have wanted : 0 ≤ max slotsPerTask toRsv := le_max_of_le_left nonneg
  unfold placeProcessors
  split_ifs with cores legacy
  · have free : ∀ position ∈ b.chip.getContiguousCoreVector (max slotsPerTask toRsv),
        ∃ core, b.chip.cores[position]? = some core ∧ core.free = true := fun position mem =>
      (freePositions_free ((b.chip.getContiguousCoreVector_sublist _).subset mem)).2
    obtain ⟨n, pins, more⟩ := pinSlots_pins (F := F) takeCore
      (fun b slots => slots.Nodup ∧ ∀ position ∈ slots,
        ∃ core, b.chip.cores[position]? = some core ∧ core.free = true)
      (fun pinned b slot slots start => by
        obtain ⟨fresh, nodup⟩ := nodup_cons.mp start.1
        obtain ⟨core, here, free⟩ := start.2 slot mem_cons_self
        obtain ⟨first, kept⟩ := takeCore_pins pinned here free
        refine ⟨first, nodup, fun other mem => ?_⟩
        rw [kept other fun same => fresh (same ▸ mem)]
        exact start.2 other (mem_cons_of_mem _ mem))
      nonneg (b.chip.length_coreVector wanted)
      ⟨(nodup_freePositions _ _).sublist (b.chip.getContiguousCoreVector_sublist _), free⟩
    exact ⟨n, pins, by simpa [Chip.slotsFound, cores] using more⟩
  · obtain ⟨n, pins, few⟩ := placeTaskForLegacyThreads_pins (F := F) nonneg placeType b
    refine ⟨n, pins, iff_of_false (not_lt.mpr few) ?_⟩
    rintro ⟨whole | other, -⟩
    · exact cores whole
    · exact other legacy
  · obtain ⟨n, pins, more⟩ := pinSlots_pins (F := F) takeUnit
      (fun b slots => ∀ index ∈ slots, index ∈ b.chip.units.map Pu.index)
      (fun pinned b slot slots start => by
        obtain ⟨first, kept⟩ := takeUnit_pins pinned (start slot mem_cons_self)
        exact ⟨first, fun index mem => kept ▸ start index (mem_cons_of_mem _ mem)⟩)
      nonneg (b.chip.length_threadVector wanted) b.chip.mem_threadVector
    exact ⟨n, pins, by simpa [Chip.slotsFound, cores, legacy] using more⟩

end Booking

variable {remaining : Allocation}

/-! ## What is placed and what remains -/

theorem Chip.length_takeAccelerators (type : DeviceType) (wanted : Nat) (chip : Chip) :
    (chip.takeAccelerators type wanted).1.length ≤ wanted := by
  induction wanted generalizing chip with
  | zero => exact Nat.le_refl 0
  | succ wanted ih =>
    unfold takeAccelerators
    split
    · exact Nat.succ_le_succ (ih _)
    · exact Nat.zero_le _

/-- Processors, memory, GPUs and MICs that are listed. -/
def Allocation.listed (a : Allocation) : Int × Int × Int × Int :=
  (a.cpuIndices.length, a.memory, a.gpuIndices.length, a.micIndices.length)

/-- Processors, memory, GPUs and MICs that are asked for. -/
def Allocation.asked (a : Allocation) : Int × Int × Int × Int :=
  (a.cpus, a.memory, a.gpus, a.mics)

/-- What the records list that a chip has got. -/
def Chip.placedOn (before after : Chip) : Int × Int × Int × Int :=
  ((after.allocations.drop before.allocations.length).map Allocation.listed).sum

/-- What has been placed and what remains make up the task, and none of it is negative. -/
def Splits (request : Allocation) (placed : Int × Int × Int × Int) (remaining : Allocation) :
    Prop :=
  placed + remaining.asked = request.asked ∧ 0 ≤ remaining.asked

/-- The memory is divided, and nothing else is asked for less. -/
theorem takeMemory_splits (chip : Chip) (remaining : Allocation) (jobid : String) :
    let start := chip.takeMemory remaining jobid
    start.1.chip.allocations = chip.allocations ∧
      start.1.alloc.memory + start.2.memory = remaining.memory ∧ start.1.alloc.resources = [] ∧
      start.2.cpus = remaining.cpus ∧ start.2.gpus = remaining.gpus ∧
      start.2.mics = remaining.mics := by
  unfold Chip.takeMemory
  split_ifs with short
  · exact ⟨rfl, Nat.add_sub_cancel' short.le, rfl, rfl, rfl, rfl⟩
  · exact ⟨rfl, rfl, rfl, rfl, rfl, rfl⟩

/-- What is listed for a part when its processors and accelerators have been found. -/
theorem splits_less {chip : Chip} (nonneg : 0 ≤ remaining.asked) {jobid : String} {b : Booking}
    {n : Nat} (pins : Booking.Pins n (chip.takeMemory remaining jobid).1 b) :
    let done := b.placeAccelerators (chip.takeMemory remaining jobid).2
    done.1.chip.allocations = chip.allocations ∧
      done.1.alloc.listed + (done.2.less done.1.alloc).asked = remaining.asked ∧
      (0 ≤ (done.2.less done.1.alloc).asked ↔ n ≤ remaining.cpus) := by
  have amounts : 0 ≤ remaining.cpus ∧ 0 ≤ remaining.gpus ∧ 0 ≤ remaining.mics :=
    ⟨nonneg.1, nonneg.2.2⟩
  have opened := takeMemory_splits chip remaining jobid
  generalize chip.takeMemory remaining jobid = start at *
  obtain ⟨same, memory, none, keptCpus, keptGpus, keptMics⟩ := opened
  obtain ⟨records, few, rest⟩ := pins
  simp only [Prod.mk.injEq, resources, processors, map_append,
    append_eq_nil_iff, map_eq_nil_iff] at rest none
  have gpus := b.chip.length_takeAccelerators .gpu start.2.gpus.toNat
  have mics := (b.chip.takeAccelerators .gpu start.2.gpus.toNat).2.length_takeAccelerators .mic
    start.2.mics.toNat
  refine ⟨(ChipLayout.placeAccelerators_records b _).1.trans (records.trans same), ?_, ?_⟩
  · simp only [asked, listed, less, Booking.placeAccelerators,
      Prod.mk_add_mk, Prod.mk.injEq, rest, none, nil_append]
    omega
  · rw [none.1.1.1, length_nil, Nat.zero_add] at few
    constructor
    · intro left
      have cpus : (0 : Int) ≤ start.2.cpus - b.alloc.cpuIndices.length := left.1
      omega
    · intro enough
      refine ⟨?_, Int.natCast_nonneg _, ?_, ?_⟩
      · change (0 : Int) ≤ start.2.cpus - b.alloc.cpuIndices.length
        omega
      · change (0 : Int) ≤ start.2.gpus - _
        omega
      · change (0 : Int) ≤ start.2.mics - _
        omega

section

variable {F : Type} [Floating F]

/-- The processors that are set aside make a difference only if they are more than those that
are pinned. -/
theorem Chip.overruns_iff (chip : Chip) (jobid : String) :
    chip.Overruns F remaining ↔
      let toRsv := if 0 < remaining.placeCpus then remaining.placeCpus else remaining.cpus
      (remaining.coresOnly = true ∨
        ¬ (remaining.placeType = .legacy ∨ remaining.placeType = .legacy2)) ∧
        Numa.Overruns F remaining.cpus toRsv
          ((chip.takeMemory remaining jobid).1.chip.slotsFound remaining.coresOnly
            (max remaining.cpus toRsv)) := by
  have same : ∀ wanted, (chip.takeMemory remaining jobid).1.chip.slotsFound remaining.coresOnly
      wanted = chip.slotsFound remaining.coresOnly wanted := by
    intro wanted
    unfold takeMemory
    split_ifs <;> rfl
  simp only [same]
  unfold Chip.Overruns
  split_ifs with more
  · rfl
  · refine and_congr_right fun _ => iff_of_false ?_ ?_
    · rintro ⟨some, less, -⟩
      omega
    · rintro ⟨-, less, -⟩
      exact lt_irrefl _ less

/-- One call splits the task, unless it overruns. -/
theorem Chip.partiallyPlaceTask_splits (chip : Chip) (nonneg : 0 ≤ remaining.asked)
    (taskAlloc : Allocation) :
    Under (fun _ => True) (chip.partiallyPlaceTask F remaining taskAlloc) fun part =>
      chip.placedOn part.chip + part.remaining.asked = remaining.asked ∧
        (0 ≤ part.remaining.asked ↔ ¬ chip.Overruns F remaining) := by
  have cpus : 0 ≤ remaining.cpus := nonneg.1
  obtain ⟨n, pins, more⟩ := Booking.placeProcessors_pins (F := F) cpus
    (if 0 < remaining.placeCpus then remaining.placeCpus else remaining.cpus)
    remaining.coresOnly remaining.placeType (chip.takeMemory remaining taskAlloc.jobid).1
  rw [chip.overruns_iff taskAlloc.jobid, ← more, not_lt]
  refine Under.bind (fun _ => pins) fun b pins => ?_
  have less := splits_less nonneg pins
  generalize b.placeAccelerators (chip.takeMemory remaining taskAlloc.jobid).2 = done at less ⊢
  obtain ⟨records, sum, few⟩ := less
  dsimp only
  split_ifs with something
  · apply Under.pure
    have placed : chip.placedOn { done.1.pushAllocation with
        chipExclusive := done.1.chip.chipExclusive ||
          decide (remaining.placeType = .socket ∨ remaining.placeType = .node) } =
        done.1.alloc.listed := by
      simp [placedOn, Booking.pushAllocation, records]
    rw [placed]
    exact ⟨sum, few⟩
  · apply Under.pure
    obtain ⟨empty, memory⟩ :=
      blank_of_not_something (Bool.eq_false_of_not_eq_true something)
    simp only [resources, processors, map_append, append_eq_nil_iff, map_eq_nil_iff] at empty
    have rest : (done.2.less done.1.alloc).asked = done.2.asked := by
      simp [less, asked, empty]
    have none : done.1.alloc.listed = 0 := by
      simp only [listed, empty, memory, length_nil]
      rfl
    rw [rest] at sum few
    rw [none, zero_add] at sum
    exact ⟨by simpa [placedOn, records] using sum, few⟩

variable (F)

/-- `partially_place_task` is called for one chip after the other. -/
def placeParts : List Chip → Allocation → Allocation → Looking (List Chip × Allocation)
  | [], remaining, _ => pure ([], remaining)
  | chip :: chips, remaining, taskAlloc => do
      let part ← chip.partiallyPlaceTask F remaining taskAlloc
      let rest ← placeParts chips part.remaining part.taskAlloc
      pure (part.chip :: rest.1, rest.2)

/-- After the calls for these chips, what they have placed and what they leave make up what was
asked for. -/
def PartsSplit (chips : List Chip) (request taskAlloc : Allocation) : Prop :=
  Splits request (chips.zipWith Chip.placedOn (placeParts F chips request taskAlloc).value.1).sum
    (placeParts F chips request taskAlloc).value.2

variable {F}

theorem partsSplit_nil {request : Allocation} (nonneg : 0 ≤ request.asked)
    (taskAlloc : Allocation) : PartsSplit F [] request taskAlloc :=
  ⟨zero_add request.asked, nonneg⟩

theorem partsSplit_cons_iff {chip : Chip} {chips : List Chip} {request taskAlloc : Allocation}
    (first : chip.placedOn (chip.partiallyPlaceTask F request taskAlloc).value.chip +
      (chip.partiallyPlaceTask F request taskAlloc).value.remaining.asked = request.asked) :
    PartsSplit F (chip :: chips) request taskAlloc ↔
      PartsSplit F chips (chip.partiallyPlaceTask F request taskAlloc).value.remaining
        (chip.partiallyPlaceTask F request taskAlloc).value.taskAlloc := by
  change chip.placedOn (chip.partiallyPlaceTask F request taskAlloc).value.chip + _ + _ = _ ∧ _ ↔ _
  rw [← first, add_assoc, add_right_inj]
  rfl

theorem not_partsSplit_of_overruns {chip : Chip} {request : Allocation}
    (nonneg : 0 ≤ request.asked) (taskAlloc : Allocation) (overruns : chip.Overruns F request) :
    ¬ PartsSplit F [chip] request taskAlloc := by
  intro splits
  obtain ⟨sum, few⟩ := chip.partiallyPlaceTask_splits (F := F) nonneg taskAlloc fun _ _ => trivial
  exact few.mp ((partsSplit_cons_iff sum).mp splits).2 overruns

/-- On any chips, every call leaves a split of what was asked for, and nothing negative, just
when no call overruns. -/
theorem placeParts_splits_iff (chips : List Chip) (request taskAlloc : Allocation)
    (nonneg : 0 ≤ request.asked) :
    (∀ visited, PartsSplit F (chips.take visited) request taskAlloc) ↔
      ∀ (visited : Nat) (chip : Chip), chips[visited]? = some chip →
        ¬ chip.Overruns F (placeParts F (chips.take visited) request taskAlloc).value.2 := by
  induction chips generalizing request taskAlloc with
  | nil =>
    refine iff_of_true (fun visited => ?_) (by simp)
    rw [take_nil]
    exact partsSplit_nil nonneg taskAlloc
  | cons chip chips ih =>
    obtain ⟨sum, few⟩ := chip.partiallyPlaceTask_splits (F := F) nonneg taskAlloc fun _ _ => trivial
    have later (left : 0 ≤ (chip.partiallyPlaceTask F request taskAlloc).value.remaining.asked) :=
      ih _ (chip.partiallyPlaceTask F request taskAlloc).value.taskAlloc left
    constructor
    · intro splits visited
      have rest : ∀ visited, PartsSplit F (chips.take visited) _ _ := fun visited =>
        (partsSplit_cons_iff sum).mp (splits (visited + 1))
      have left := (rest 0).2
      cases visited with
      | zero =>
        rintro _ ⟨⟩
        exact few.mp left
      | succ visited => exact (later left).mp rest visited
    · intro fair visited
      have left := few.mpr (fair 0 chip rfl)
      cases visited with
      | zero => exact partsSplit_nil nonneg taskAlloc
      | succ visited =>
        exact (partsSplit_cons_iff sum).mpr
          ((later left).mpr (fun visited => fair (visited + 1)) visited)

end

/-! ### Numbers of type float -/

open Torque.Arith

instance : Floating Binary32 where
  ofInt := Binary32.ofInt
  add := Binary32.add
  div := Binary32.div
  lt x y := decide (x.units < y.units)
  le x y := decide (x.units ≤ y.units)
  round := Binary32.nearest

/-- The sums of the step from 8192 slots to 8193: the part beyond 1 is half of the last digit,
or less, once 2048 is reached. -/
theorem roundQuot_sum {pins : Nat} (le : pins < 8192) :
    Binary32.roundQuot (pins * 2 ^ 149 + min pins 2048 * 2 ^ 136 + (2 ^ 149 + 2 ^ 136)) 1 =
      (pins + 1) * 2 ^ 149 + min (pins + 1) 2048 * 2 ^ 136 := by
  rcases Nat.lt_or_ge pins 2047 with early | late
  · rw [Binary32.roundQuot_of_dvd (e := 136) (by omega) (by omega)]
    omega
  · rcases Nat.lt_or_ge pins 2048 with first | late
    · rw [Binary32.roundQuot_of_dvd (e := 137) (by omega) (by omega)]
      omega
    · rcases Nat.lt_or_ge pins 4095 with half | less
      · rw [@Binary32.roundQuot_one _ 137 ((pins + 1) * 2 ^ 12 + 2 ^ 10) (2 ^ 136)
          (by omega) (by omega) (by omega) (by omega) (by omega)]
        omega
      · rcases Nat.lt_or_ge pins 8191 with before | last
        · rw [@Binary32.roundQuot_one _ 138 ((pins + 1) * 2 ^ 11 + 2 ^ 9) (2 ^ 136)
            (by omega) (by omega) (by omega) (by omega) (by omega)]
          omega
        · rw [@Binary32.roundQuot_one _ 139 ((pins + 1) * 2 ^ 10 + 2 ^ 8) (2 ^ 136)
            (by omega) (by omega) (by omega) (by omega) (by omega)]
          omega

theorem pinIndexAt_binary32 {pins : Nat} (le : pins ≤ 8192) :
    Booking.pinIndexAt (slotStep Binary32 8192 8193) pins =
      (⟨(pins * 2 ^ 149 + min pins 2048 * 2 ^ 136 : Nat)⟩ : Binary32) := by
  have step : slotStep Binary32 8192 8193 = ⟨(2 ^ 149 + 2 ^ 136 : Nat)⟩ := by decide +kernel
  induction pins with
  | zero => rfl
  | succ pins ih =>
    have next : Booking.pinIndexAt (slotStep Binary32 8192 8193) (pins + 1) =
        Binary32.add (Booking.pinIndexAt (slotStep Binary32 8192 8193) pins)
          (slotStep Binary32 8192 8193) := rfl
    rw [next, ih (by omega), step, Binary32.add_natCast, roundQuot_sum le]

/-- A chip of so many idle units, all of one core. -/
def idleUnits (units : Nat) : Chip where
  totalCores := 1
  totalThreads := units
  availableCores := 1
  availableThreads := units
  availableGpus := 0
  availableMics := 0
  chipExclusive := false
  memory := 0
  availableMemory := 0
  cores := [⟨0, units, true, (List.range units).map fun index : Nat => ⟨index, false⟩, units⟩]
  devices := []
  allocations := []

theorem slotsFound_idleUnits {units : Nat} (pos : 0 < units) :
    (idleUnits units).slotsFound false units = units := by
  have listed : (idleUnits units).units =
      (List.range units).map fun index : Nat => ⟨index, false⟩ := by
    rw [Chip.units, idleUnits, flatMap_singleton]
  have run : Structure.leadingRun Pu.idle (idleUnits units).units = units := by
    rw [listed, Structure.leadingRun, takeWhile_eq_self_iff.mpr (by simp [Pu.idle]), length_map,
      length_range]
  have scan : contiguousUnits units (idleUnits units).units [] units = some _ :=
    contiguousUnits_of_le_leadingRun (by omega) (by omega)
  have length := length_contiguousUnits (by omega) (by simp) scan
  unfold Chip.slotsFound Chip.getContiguousThreadVector
  rw [if_neg Bool.false_ne_true, if_neg (by omega), scan, Option.getD_some]
  omega

/-- As many units set aside for one execution slot less. -/
def manySlots : Allocation :=
  { cpus := 8192, placeCpus := 8193 }

theorem manySlots_overruns : (idleUnits 8193).Overruns Binary32 manySlots := by
  have expected {pins : Nat} (le : pins ≤ 8192) :
      Floating.round (Booking.pinIndexAt (slotStep Binary32 8192 8193) pins) = pins := by
    rw [pinIndexAt_binary32 le]
    change ((2 : Int) * (pins * 2 ^ 149 + min pins 2048 * 2 ^ 136 : Nat) + (2 ^ 149 : Nat)) /
      (2 * (2 ^ 149 : Nat)) = pins
    omega
  refine ⟨.inr (by decide), by decide, by decide, ?_, ?_, ?_⟩
  · exact (expected (Nat.zero_le _)).ge
  · intro pins less
    change pins < 8192 at less
    change Floating.round (Booking.pinIndexAt (slotStep Binary32 8192 8193) pins) <
      Floating.round (Booking.pinIndexAt (slotStep Binary32 8192 8193) (pins + 1))
    rw [expected less.le, expected less]
    omega
  · change Floating.round (Booking.pinIndexAt (slotStep Binary32 8192 8193) 8192) <
      ((idleUnits 8193).slotsFound false (8193 : Nat) : Int)
    rw [expected (Nat.le_refl _), slotsFound_idleUnits (by decide)]
    decide

/-- 8192 slots of 8193 are to be pinned, and all 8193 are. -/
theorem slot_pinned_beyond_task :
    ¬ ∀ (chips : List Chip) (request taskAlloc : Allocation), 0 ≤ request.asked →
      ∀ visited, PartsSplit Binary32 (chips.take visited) request taskAlloc := by
  intro always
  have nonneg : 0 ≤ manySlots.asked := by decide
  exact not_partsSplit_of_overruns nonneg {} manySlots_overruns
    (always [idleUnits 8193] manySlots {} nonneg 1)

/-- Three processors are asked of two chips that have one each. -/
theorem two_chips_split :
    let chip : Chip := ⟨1, 1, 1, 1, 0, 0, false, 4, 4, [⟨0, 1, true, [⟨0, false⟩], 1⟩], [], []⟩
    let request : Allocation := { cpus := 3, placeCpus := 4, memory := 6 }
    (placeParts Binary32 [chip, chip] request {}).value.2.asked = (1, 0, 0, 0) ∧
      ∀ visited, PartsSplit Binary32 ([chip, chip].take visited) request {} := by
  refine ⟨by decide +kernel, (placeParts_splits_iff _ _ _ (by decide)).mpr ?_⟩
  rintro (_ | _ | visited) _ ⟨⟩ <;> decide +kernel

end Torque.Numa
