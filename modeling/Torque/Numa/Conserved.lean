import Torque.Numa.Runs
import Mathlib.Data.List.Flatten

/-!
# The counters of a chip

A chip counts the memory, the units, the cores and the accelerators that are left.  In a steady
run all these counters agree with the records and the flags of the chip.  That of the cores is
not the number of cores that are free: a unit that is reserved alone makes its core busy, and
only a core that is reserved as a whole is counted.
-/

namespace Torque.Numa

open Torque.Structure Torque.Transition List

/-- The counters of the chip agree with its records and with what is marked as busy, where so
many cores are to be left. -/
structure Chip.Conserved (chip : Chip) (cores : Int) : Prop where
  memory : chip.availableMemory + (chip.allocations.map Allocation.memory).sum = chip.memory
  threads : chip.availableThreads = chip.units.countP fun unit => !unit.busy
  cores : chip.availableCores = cores
  devices : ∀ type, chip.availableDevices type =
    chip.devices.countP fun device => !device.busy && decide (device.type = type)

/-- The cores that the records list. -/
def wholeCores (records : List Allocation) : List Int :=
  (records.filter Allocation.coresOnly).flatMap Allocation.processors

/-- How many cores no record lists as a whole. -/
def Chip.unlistedCores (chip : Chip) : Nat :=
  chip.cores.countP fun core => decide (core.id ∉ wholeCores chip.allocations)

/-- As many entries are in a part of a list as the part has. -/
theorem countP_mem_part {whole part : List Int} (distinct : whole.Nodup) (nodup : part.Nodup)
    (inside : ∀ x ∈ part, x ∈ whole) : whole.countP (fun x => decide (x ∈ part)) = part.length := by
  have same : (whole.filter fun x => decide (x ∈ part)).Perm part := by
    rw [perm_ext_iff_of_nodup (distinct.filter _) nodup]
    intro x
    rw [mem_filter, decide_eq_true_iff]
    exact ⟨And.right, fun mem => ⟨inside x mem, mem⟩⟩
  rw [countP_eq_length_filter, same.length_eq]

/-- The unit, if it is one. -/
def Resource.index? : Resource → Option Int
  | .unit index => some index
  | .gpu _ => none
  | .mic _ => none

theorem nodup_indices {held : List Resource} (nodup : held.Nodup) :
    (held.filterMap Resource.index?).Nodup := by
  refine nodup.filterMap fun first second index here there => ?_
  cases first <;> cases second <;> simp_all [Resource.index?]

namespace ChipLayout

variable {layout : ChipLayout} {chip : Chip} {records : List Allocation} {index : Int}
  {core : CoreLayout}

theorem sum_coreCount (records : List Allocation) :
    (records.map coreCount).sum = (wholeCores records).length := by
  induction records with
  | nil => rfl
  | cons a records ih =>
    rw [map_cons, sum_cons, ih, wholeCores, wholeCores]
    cases whole : a.coresOnly <;> simp [coreCount, whole]

theorem units_eq (layout : ChipLayout) (records : List Allocation) :
    records.flatMap layout.unitsOf = (layout.tally records).held.filterMap Resource.index? := by
  rw [tally, filterMap_flatMap]
  congr 1
  funext a
  simp [holds, unitsOf, filterMap_map, Function.comp_def, Resource.index?]

theorem busyUnit_iff :
    busyUnit (layout.tally records).held index = true ↔ index ∈ records.flatMap layout.unitsOf := by
  simp [busyUnit, tally, holds, unitsOf]

theorem sum_threads (counted : ∀ a ∈ records, a.threads = (layout.unitsOf a).length) :
    (records.map Allocation.threads).sum = (records.flatMap layout.unitsOf).length := by
  rw [map_congr_left counted, length_flatMap]
  induction records <;> simp_all

section

variable (accounts : layout.Accounts chip chip.allocations)
include accounts

theorem Accounts.units_nodup : (chip.allocations.flatMap layout.unitsOf).Nodup := by
  rw [units_eq]
  exact nodup_indices accounts.shows.nodup

theorem Accounts.units_known :
    ∀ index ∈ chip.allocations.flatMap layout.unitsOf, index ∈ layout.indices := by
  intro index mem
  rw [← busyUnit_iff, busyUnit, decide_eq_true_iff] at mem
  exact Shows.mem_indices_of_mem_resources (accounts.shows.known _ mem)

theorem Accounts.threads_eq : chip.availableThreads = chip.units.countP fun unit => !unit.busy := by
  have busy := countP_mem_part layout.distinct accounts.units_nodup accounts.units_known
  have split := length_eq_countP_add_countP
    (fun index => decide (index ∈ chip.allocations.flatMap layout.unitsOf)) (l := layout.indices)
  have idle : chip.units.countP (fun unit => !unit.busy) = layout.indices.countP fun index =>
      decide ¬decide (index ∈ chip.allocations.flatMap layout.unitsOf) = true := by
    rw [accounts.shows.units, countP_map]
    apply countP_congr
    intro index _
    simp only [Function.comp_apply, ← busyUnit_iff, decide_eq_true_iff, Bool.not_eq_true,
      Bool.not_eq_true']
  have taken : (layout.tally chip.allocations).threads = _ := sum_threads accounts.counted
  rw [idle, accounts.shows.availableThreads, taken]
  unfold indices at *
  omega

theorem Accounts.devices_eq (type : DeviceType) : chip.availableDevices type =
    chip.devices.countP fun device => !device.busy && decide (device.type = type) := by
  rw [accounts.shows.availableDevices, idle, countP_filter, accounts.shows.devices, countP_map]
  rfl

/-! ## The cores -/

/-- As many cores are counted as are not held as a whole. -/
theorem Accounts.cores_eq : chip.availableCores = chip.unlistedCores := by
  have ids : (layout.cores.map CoreLayout.id).Nodup := by
    rw [Nodup, pairwise_map]
    refine (nodup_flatMap.mp layout.distinct).2.imp fun {core other} apart same => ?_
    exact apart core.id_mem (same ▸ other.id_mem)
  have listed : (wholeCores chip.allocations).Nodup := by
    have all := nodup_indices accounts.listed.1
    rw [filterMap_flatMap] at all
    refine all.sublist ((filter_sublist.flatMap _).trans (Sublist.flatMap_right _ fun a _ => ?_))
    simp [Allocation.resources, filterMap_map, Function.comp_def, Resource.index?]
  have known : ∀ name ∈ wholeCores chip.allocations, name ∈ layout.cores.map CoreLayout.id := by
    intro name mem
    obtain ⟨a, here, mem⟩ := mem_flatMap.mp mem
    obtain ⟨here, only⟩ := mem_filter.mp here
    obtain ⟨core, inside, rfl⟩ := accounts.named a here only name mem
    exact mem_map_of_mem inside
  have whole := countP_mem_part ids listed known
  have split := length_eq_countP_add_countP
    (fun core : CoreLayout => decide (core.id ∈ wholeCores chip.allocations)) (l := layout.cores)
  have taken : (layout.tally chip.allocations).cores = _ := sum_coreCount chip.allocations
  rw [countP_map] at whole
  rw [Chip.unlistedCores, accounts.shows.cores, countP_map, accounts.shows.availableCores, taken,
    ← whole]
  simp only [Function.comp_def, CoreLayout.core, decide_eq_true_eq] at split ⊢
  omega

theorem Accounts.conserved : chip.Conserved chip.unlistedCores where
  memory := by
    rw [accounts.shows.memory]
    exact accounts.shows.availableMemory
  threads := accounts.threads_eq
  cores := accounts.cores_eq
  devices := accounts.devices_eq

end

end ChipLayout

/-- In a steady run, the counters of every chip agree with its state, and the cores that are
left are those that no record lists as a whole. -/
theorem counters_conserved {F : Type} [Floating F] (layout : MachineLayout)
    (events : List Event)
    (steady : Admissible (Machine.step F) (Machine.Steady F) layout.idle events) :
    ∀ chip ∈ (run (Machine.step F) layout.idle events).chips,
      chip.Conserved chip.unlistedCores :=
  forall_mem_right (fun _ _ keeps => keeps.accounts.conserved)
    (MachineLayout.Sound.run steady).chips

/-- One unit is reserved, and its core is still counted. -/
theorem core_of_busy_unit_counted :
    ¬ ∀ (layout : MachineLayout) (events : List Event),
      ∀ chip ∈ (run (Machine.step ℚ) layout.idle events).chips,
        chip.Conserved chip.freeCoreCount := by
  intro always
  have cores : ∀ chip ∈ (run (Machine.step ℚ) threeCores.idle
      [.placeJob "1.server" [threadReq 1]]).chips, chip.availableCores = chip.freeCoreCount :=
    fun chip mem => (always _ _ chip mem).cores
  revert cores
  decide +kernel

/-- A unit and a whole core are held, and two of the three cores are counted. -/
theorem counters_conserved_mixed :
    let events : List Event :=
      [.placeJob "1.server" [threadReq 1],
        .placeJob "2.server" [{ threadReq 1 with useCores := true }]]
    Admissible (Machine.step ℚ) (Machine.Steady ℚ) threeCores.idle events ∧
      ∀ chip ∈ (run (Machine.step ℚ) threeCores.idle events).chips,
        chip.Conserved chip.unlistedCores ∧ chip.availableCores = 2 := by
  intro events
  have steady : Admissible (Machine.step ℚ) (Machine.Steady ℚ) threeCores.idle events := by
    decide +kernel
  have counted : ∀ chip ∈ (run (Machine.step ℚ) threeCores.idle events).chips,
      chip.availableCores = 2 := by
    decide +kernel
  exact ⟨steady, fun chip mem =>
    ⟨counters_conserved threeCores events steady chip mem, counted chip mem⟩⟩

end Torque.Numa
