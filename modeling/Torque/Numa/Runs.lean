import Mathlib.Data.List.Flatten
import Torque.Numa.MachinePlacing

/-!
# Runs of a machine

The machine starts idle, and jobs are placed and freed in any order.  As long as
the scans for contiguous threads and the gifts of all execution slots meet
steady rows of units, every chip accounts for its records, and, where the chips
share no number, no unit, GPU or MIC is held twice.  From such a state, placing
a job and freeing it gives back the chips as they were.

Neither holds without the assumption.  A scan that meets a busy unit after an
idle one forgets what it has found but goes on with the busy unit as the first
of the run, and that unit is then reserved for a second time.
-/

namespace Torque.Numa

open Torque.Structure Torque.Transition List

/-- The chip nothing of which is held. -/
def ChipLayout.idleChip (layout : ChipLayout) : Chip where
  totalCores := layout.cores.length
  totalThreads := layout.indices.length
  availableCores := layout.cores.length
  availableThreads := layout.indices.length
  availableGpus := layout.idle .gpu []
  availableMics := layout.idle .mic []
  chipExclusive := false
  memory := layout.memory
  availableMemory := layout.memory
  cores := layout.cores.map fun core => core.core fun _ => false
  devices := layout.devices.map (deviceOf fun _ => false)
  allocations := []

/-- The chips of each socket. -/
structure MachineLayout where
  sockets : List (List ChipLayout)

/-- No two chips have a unit, a GPU or a MIC of one number.  The operating system
numbers them so; the machine that is made for a Cray numbers the units of every
chip from zero. -/
def MachineLayout.Distinct (layout : MachineLayout) : Prop :=
  (layout.sockets.flatten.flatMap ChipLayout.resources).Nodup

instance (layout : MachineLayout) : Decidable layout.Distinct :=
  inferInstanceAs (Decidable (List.Nodup _))

/-- The machine that starts with everything idle. -/
def MachineLayout.idle (layout : MachineLayout) : Machine where
  sockets := layout.sockets.map fun chips => ⟨chips.map ChipLayout.idleChip, false⟩
  allocations := []

/-! ## What is held -/

/-- The units of the core with this name. -/
def Chip.coreUnits (chip : Chip) (name : Int) : List Int :=
  ((chip.cores.find? fun core => core.id = name).map fun core => core.units.map Pu.index).getD []

/-- What an allocation holds of the chip: the units it lists, or those of the
cores it lists, and its GPUs and MICs. -/
def Chip.holds (chip : Chip) (a : Allocation) : List Resource :=
  (a.processors.flatMap fun index =>
      if a.coresOnly then chip.coreUnits index else [index]).map .unit ++
    a.gpuIndices.map .gpu ++ a.micIndices.map .mic

/-- Nothing is held twice, be it by one job or by two: neither the units and
devices the records on the chips stand for, nor the indices they list, nor those
listed by the allocations of the machine. -/
structure Machine.Unshared (machine : Machine) : Prop where
  held : (machine.chips.flatMap fun chip => chip.allocations.flatMap chip.holds).Nodup
  recorded :
    (machine.chips.flatMap fun chip => chip.allocations.flatMap Allocation.resources).Nodup
  listed : (machine.allocations.flatMap Allocation.resources).Nodup

namespace ChipLayout

variable {layout : ChipLayout} {chip : Chip} {t : Tally}

theorem Shows.coreUnits (shows : layout.Shows chip t) (name : Int) :
    chip.coreUnits name = layout.coreUnits name := by
  unfold Chip.coreUnits ChipLayout.coreUnits
  rw [shows.cores, find?_map, Option.map_map]
  congr 1
  congr 1
  funext core
  simp [CoreLayout.core, Function.comp_def]

theorem Shows.holds (shows : layout.Shows chip t) (a : Allocation) :
    chip.holds a = layout.holds a := by
  unfold Chip.holds ChipLayout.holds ChipLayout.named
  simp only [shows.coreUnits]

/-- What is listed is held: a core is named by one of its units. -/
theorem resources_sublist_holds {a : Allocation} (named : layout.WellNamed a) :
    a.resources.Sublist (layout.holds a) := by
  have units : a.processors.Sublist (a.processors.flatMap (layout.named a.coresOnly)) := by
    nth_rewrite 1 [← flatMap_singleton' a.processors]
    refine List.Sublist.flatMap_right _ fun index mem => singleton_sublist.mpr ?_
    unfold ChipLayout.named
    split
    · rename_i whole
      obtain ⟨core, inside, rfl⟩ := named whole index mem
      rw [coreUnits_id inside]
      exact core.id_mem
    · exact mem_singleton_self index
  exact ((units.map _).append_right _).append_right _

theorem accounts_idleChip (layout : ChipLayout) : layout.Accounts layout.idleChip [] where
  shows :=
    { cores := by simp [idleChip, tally, busyUnit_nil]
      devices := by simp [idleChip, tally, busyDevice_nil]
      totalCores := rfl
      totalThreads := rfl
      memory := rfl
      availableCores := by simp [idleChip, tally]
      availableThreads := by simp [idleChip, tally]
      availableMemory := by simp [idleChip, tally]
      availableDevices := by
        intro type
        cases type <;> rfl
      nodup := nodup_nil
      known := by simp [tally] }
  named := by simp
  counted := by simp

variable (accounts : layout.Accounts chip chip.allocations)
include accounts

/-- The records of a chip hold nothing twice, and only what the chip has. -/
theorem Accounts.held :
    (chip.allocations.flatMap chip.holds).Nodup ∧
      ∀ resource ∈ chip.allocations.flatMap chip.holds, resource ∈ layout.resources := by
  rw [flatMap_congr fun a _ => accounts.shows.holds a]
  exact ⟨accounts.shows.nodup, accounts.shows.known⟩

theorem Accounts.listed :
    (chip.allocations.flatMap Allocation.resources).Nodup ∧
      ∀ resource ∈ chip.allocations.flatMap Allocation.resources,
        resource ∈ layout.resources := by
  have fewer := List.Sublist.flatMap_right chip.allocations fun a mem =>
    resources_sublist_holds (accounts.named a mem)
  exact ⟨accounts.shows.nodup.sublist fewer,
    fun resource mem => accounts.shows.known resource (fewer.subset mem)⟩

end ChipLayout

/-! ## The invariant -/

/-- A chip that accounts for its records, and is marked as exclusive only if it
has some. -/
structure ChipLayout.Keeps (layout : ChipLayout) (chip : Chip) : Prop where
  accounts : layout.Accounts chip chip.allocations
  marked : chip.chipExclusive = true → chip.allocations ≠ []

/-- Every chip accounts for its records, and what an allocation of the machine
lists has been recorded on the chips for the same job. -/
structure MachineLayout.Sound (layout : MachineLayout) (machine : Machine) : Prop where
  chips : List.Forall₂ ChipLayout.Keeps layout.sockets.flatten machine.chips
  listed : ∀ jobid resource,
    ((machine.allocations.filter fun a => a.jobid = jobid).flatMap Allocation.resources).count
      resource ≤ recordedOn jobid machine.chips resource

/-- How often the records of all jobs list the resource. -/
theorem count_records (records : List Allocation) (resource : Resource) :
    (records.flatMap Allocation.resources).count resource =
      (records.map fun a => a.resources.count resource).sum := by
  rw [count_flatMap]
  rfl

theorem recordedOn_eq (jobid : String) (chips : List Chip) (resource : Resource) :
    recordedOn jobid chips resource =
      (((chips.flatMap Chip.allocations).filter fun a => a.jobid = jobid).map fun a =>
        a.resources.count resource).sum := by
  induction chips with
  | nil => rfl
  | cons chip chips ih =>
    have rest : recordedOn jobid (chip :: chips) resource =
        chip.recorded jobid resource + recordedOn jobid chips resource := rfl
    rw [rest, ih, flatMap_cons, filter_append, map_append, sum_append]
    simp only [Chip.recorded, count_records]

namespace MachineLayout.Sound

variable {layout : MachineLayout} {machine machine' : Machine}

theorem unshared (sound : layout.Sound machine) (distinct : layout.Distinct) :
    machine.Unshared := by
  have recorded := (nodup_flatMap_of_within (sound.chips.imp fun _ _ keeps => keeps.accounts.listed)
      distinct).1
  constructor
  · exact (nodup_flatMap_of_within (sound.chips.imp fun _ _ keeps => keeps.accounts.held)
      distinct).1
  · exact recorded
  · rw [nodup_iff_count_le_one] at recorded ⊢
    intro resource
    refine Nat.le_trans ?_ (recorded resource)
    rw [← flatMap_assoc, count_records, count_records]
    apply sum_map_le_of_groups Allocation.jobid
    intro jobid
    have listed := sound.listed jobid resource
    rw [count_records, recordedOn_eq] at listed
    exact listed

theorem idle (layout : MachineLayout) : layout.Sound layout.idle where
  chips := by
    have chips : layout.idle.chips = layout.sockets.flatten.map ChipLayout.idleChip := by
      unfold Machine.chips MachineLayout.idle
      rw [flatMap_map, map_flatten]
      rfl
    rw [chips, forall₂_map_right_iff]
    refine forall₂_same.mpr fun chip _ => ⟨ChipLayout.accounts_idleChip chip, ?_⟩
    intro exclusive
    contradiction
  listed jobid resource := by
    simp [MachineLayout.idle]

theorem places {restored : Prop} {jobid : String} (sound : layout.Sound machine)
    (places : Machine.Places restored jobid machine machine') : layout.Sound machine' where
  chips := forall₂_trans (fun _ _ _ keeps grown =>
    ⟨grown.accounts _ keeps.accounts, grown.marked keeps.marked⟩) sound.chips places.extended
  listed other resource := by
    obtain ⟨added, listed, own, counted⟩ := places.records
    have before := sound.listed other resource
    rw [listed, filter_append, flatMap_append, count_append]
    by_cases same : other = jobid
    · subst same
      have after := counted resource
      have all : added.filter (fun a => a.jobid = other) = added :=
        filter_eq_self.mpr (by simpa using own)
      rw [all]
      omega
    · have none : added.filter (fun a => a.jobid = other) = [] := by
        rw [filter_eq_nil_iff]
        intro a mem
        simpa [own a mem] using Ne.symm same
      have more := recordedOn_le places.extended other resource
      rw [none, flatMap_nil, count_nil, Nat.add_zero]
      exact before.trans more

theorem freeJobAllocation (sound : layout.Sound machine) (jobid : String) :
    layout.Sound (machine.freeJobAllocation jobid) where
  chips := by
    rw [Machine.chips_freeJobAllocation, forall₂_map_right_iff]
    refine sound.chips.imp fun _ chip keeps => ⟨keeps.accounts.freeTask jobid, ?_⟩
    intro exclusive
    simp only [Chip.freeTask] at exclusive ⊢
    split at exclusive
    · contradiction
    · assumption
  listed other resource := by
    rw [Machine.chips_freeJobAllocation]
    by_cases same : other = jobid
    · subst same
      simp [Machine.freeJobAllocation, filter_filter]
    · have before := sound.listed other resource
      rw [recordedOn_eq] at before ⊢
      have kept : (machine.chips.map fun chip => chip.freeTask jobid).flatMap Chip.allocations =
          (machine.chips.flatMap Chip.allocations).filter fun a => a.jobid ≠ jobid := by
        rw [flatMap_map, filter_flatMap]
        rfl
      rw [kept, filter_filter_ne Allocation.jobid same]
      simp only [Machine.freeJobAllocation]
      rw [filter_filter_ne Allocation.jobid same]
      exact before

end MachineLayout.Sound

/-! ## Steady runs -/

section

variable (F : Type) [Floating F]

/-- All that a call takes without checking it again is steady. -/
def Machine.Steady (machine : Machine) : Event → Prop
  | .placeJob jobid reqs => ∀ look ∈ (machine.placeJob F jobid reqs).trace, look.Steady
  | .freeJobAllocation _ => True

instance (machine : Machine) : DecidablePred (machine.Steady F)
  | .placeJob jobid reqs =>
    inferInstanceAs (Decidable (∀ look ∈ (machine.placeJob F jobid reqs).trace, look.Steady))
  | .freeJobAllocation _ => inferInstanceAs (Decidable True)

variable {F} {layout : MachineLayout}

theorem MachineLayout.Sound.step {machine : Machine} (sound : layout.Sound machine) {event : Event}
    (steady : machine.Steady F event) : layout.Sound (machine.step F event) := by
  cases event with
  | placeJob jobid reqs =>
    have placed : Machine.Places False jobid machine (machine.placeJob F jobid reqs).value.1 :=
      Machine.placeJob_places machine jobid reqs fun look mem => ⟨steady look mem, False.elim⟩
    exact sound.places placed
  | freeJobAllocation jobid => exact sound.freeJobAllocation jobid

theorem MachineLayout.Sound.run {events : List Event}
    (steady : Admissible (Machine.step F) (Machine.Steady F) layout.idle events) :
    layout.Sound (Transition.run (Machine.step F) layout.idle events) :=
  invariant layout.Sound (MachineLayout.Sound.idle layout) (fun _ _ sound ok => sound.step ok) steady

/-- As long as the scans are steady, no unit and no accelerator is held twice,
provided that the chips do not share their numbers. -/
theorem nothing_held_twice (layout : MachineLayout) (distinct : layout.Distinct)
    (events : List Event)
    (steady : Admissible (Machine.step F) (Machine.Steady F) layout.idle events) :
    (run (Machine.step F) layout.idle events).Unshared :=
  (MachineLayout.Sound.run steady).unshared distinct

end

/-! ### A scan that is not steady -/

/-- A core with one unit. -/
def singleUnit (index : Int) : CoreLayout :=
  ⟨index, [index], rfl⟩

/-- One chip with three such cores. -/
def threeCores : MachineLayout where
  sockets :=
    [[{ cores := [singleUnit 0, singleUnit 1, singleUnit 2]
        devices := []
        memory := 4
        distinct := by decide
        distinctDevices := List.nodup_nil }]]

/-- One task that asks for threads only. -/
def threadReq (slots : Int) : Req where
  executionSlots := slots
  memory := 0
  gpus := 0
  mics := 0
  useCores := false
  placementStr := []
  placeCores := 0
  placeThreads := 0
  sockets := 0
  numaNodes := 0
  numTasksForHost := 1

/-- The first of three units is idle again, and the second one busy. -/
def fragmented : List Event :=
  [.placeJob "1.server" [threadReq 1], .placeJob "2.server" [threadReq 1],
    .freeJobAllocation "1.server"]

/-- The units are idle, busy and idle.  Two threads are found at the second and
the third unit. -/
theorem unit_held_by_two_jobs :
    ¬ ∀ (layout : MachineLayout), layout.Distinct → ∀ events : List Event,
      (run (Machine.step ℚ) layout.idle events).Unshared := by
  intro always
  have listed := (always threeCores (by decide)
    (fragmented ++ [.placeJob "3.server" [threadReq 2]])).listed
  revert listed
  decide +kernel

theorem nothing_held_twice_fragmented :
    threeCores.Distinct ∧
      Admissible (Machine.step ℚ) (Machine.Steady ℚ) threeCores.idle
        (fragmented ++ [.placeJob "3.server" [threadReq 1]]) ∧
      (run (Machine.step ℚ) threeCores.idle
        (fragmented ++ [.placeJob "3.server" [threadReq 1]])).Unshared := by
  have steady : Admissible (Machine.step ℚ) (Machine.Steady ℚ) threeCores.idle
      (fragmented ++ [.placeJob "3.server" [threadReq 1]]) := by
    decide +kernel
  exact ⟨by decide, steady, nothing_held_twice threeCores (by decide) _ steady⟩

/-! ## Placing and freeing -/

/-- A chip is as it was, apart from its records. -/
structure Chip.Restored (chip chip' : Chip) : Prop where
  cores : chip'.cores = chip.cores
  devices : chip'.devices = chip.devices
  availableMemory : chip'.availableMemory = chip.availableMemory
  availableThreads : chip'.availableThreads = chip.availableThreads
  availableCores : chip'.availableCores = chip.availableCores
  availableGpus : chip'.availableGpus = chip.availableGpus
  availableMics : chip'.availableMics = chip.availableMics
  chipExclusive : chip'.chipExclusive = chip.chipExclusive

theorem map_cores_of_restored {chips chips' : List Chip}
    (restored : List.Forall₂ Chip.Restored chips chips') :
    chips'.map Chip.cores = chips.map Chip.cores := by
  induction restored with
  | nil => rfl
  | cons one _ ih => rw [map_cons, map_cons, one.cores, ih]

variable {jobid : String}

/-- Freeing the job leaves the records that were there before. -/
theorem Chip.Extends.freed {restored : Prop} {chip chip' : Chip}
    (grown : Extends restored jobid chip chip') (fresh : ∀ a ∈ chip.allocations, a.jobid ≠ jobid) :
    (chip'.freeTask jobid).allocations = chip.allocations := by
  obtain ⟨added, listed, own⟩ := grown.records
  simp only [freeTask, listed, filter_append]
  rw [filter_eq_self.mpr (by simpa using fresh), filter_eq_nil_iff.mpr (by simpa using own),
    append_nil]

/-- A chip that accounts for its records is determined by them. -/
theorem ChipLayout.Keeps.freed {layout : ChipLayout} {chip chip' : Chip}
    (keeps : layout.Keeps chip) (grown : Chip.Extends True jobid chip chip')
    (fresh : ∀ a ∈ chip.allocations, a.jobid ≠ jobid) :
    chip.Restored (chip'.freeTask jobid) := by
  have records := grown.freed fresh
  have before := keeps.accounts.shows
  have after := ((grown.accounts layout keeps.accounts).freeTask jobid).shows
  rw [records] at after
  constructor
  · rw [after.cores, before.cores]
  · rw [after.devices, before.devices]
  · have memory := before.availableMemory.trans after.availableMemory.symm
    omega
  · rw [after.availableThreads, before.availableThreads]
  · rw [after.availableCores, before.availableCores]
  · exact (after.availableDevices .gpu).trans (before.availableDevices .gpu).symm
  · exact (after.availableDevices .mic).trans (before.availableDevices .mic).symm
  · -- the mark goes with the last record, and otherwise has not been set for this job
    have kept : (chip'.freeTask jobid).chipExclusive =
        if chip.allocations = [] then false else chip'.chipExclusive := by
      rw [← records]
      rfl
    rw [kept]
    split
    · rename_i empty
      by_contra differs
      exact keeps.marked (by simpa using Ne.symm differs) empty
    · rename_i nonempty
      obtain ⟨a, mem⟩ := exists_mem_of_ne_nil _ nonempty
      exact grown.mark trivial ⟨a, mem, fresh a mem⟩

/-- The job has no record on any chip. -/
def Machine.HoldsNothing (machine : Machine) (jobid : String) : Prop :=
  ∀ chip ∈ machine.chips, ∀ a ∈ chip.allocations, a.jobid ≠ jobid
deriving Decidable

section

variable {F : Type} [Floating F]

/-- In a state that was reached by steady scans, placing a job and freeing it
gives the chips back as they were, provided that the scans for this job are
steady and no chip that other jobs use is marked as exclusive for it. -/
theorem place_then_free_restores (layout : MachineLayout) (events : List Event)
    (steady : Admissible (Machine.step F) (Machine.Steady F) layout.idle events) (jobid : String)
    (reqs : List Req)
    (fresh : (run (Machine.step F) layout.idle events).HoldsNothing jobid)
    (fair : ∀ look ∈ ((run (Machine.step F) layout.idle events).placeJob F jobid reqs).trace,
      look.Steady ∧ look.Restorable) :
    List.Forall₂ Chip.Restored (run (Machine.step F) layout.idle events).chips
      (((run (Machine.step F) layout.idle events).placeJob F jobid reqs).value.1.freeJobAllocation
        jobid).chips := by
  have sound := MachineLayout.Sound.run steady
  generalize run (Machine.step F) layout.idle events = machine at fresh fair sound ⊢
  have placed : Machine.Places True jobid machine (machine.placeJob F jobid reqs).value.1 :=
    Machine.placeJob_places machine jobid reqs
      fun look mem => ⟨(fair look mem).1, fun _ => (fair look mem).2⟩
  have kept : ∀ chip ∈ machine.chips, ∃ chipLayout : ChipLayout, chipLayout.Keeps chip :=
    forall_mem_right (fun chipLayout _ keeps => ⟨chipLayout, keeps⟩) sound.chips
  rw [Machine.chips_freeJobAllocation, forall₂_map_right_iff]
  have both := (forall₂_and_left _ _).mpr
    ⟨fun chip mem => And.intro (kept chip mem) (fresh chip mem), placed.extended⟩
  refine both.imp fun chip chip' facts => ?_
  obtain ⟨⟨⟨chipLayout, keeps⟩, fresh⟩, grown⟩ := facts
  exact keeps.freed grown fresh

end

/-- The second unit, which another job holds, is idle after the job is gone. -/
theorem unit_freed_for_other_job :
    ¬ ∀ (layout : MachineLayout) (events : List Event) (jobid : String) (reqs : List Req),
      (run (Machine.step ℚ) layout.idle events).HoldsNothing jobid →
        List.Forall₂ Chip.Restored (run (Machine.step ℚ) layout.idle events).chips
          (((run (Machine.step ℚ) layout.idle events).placeJob ℚ jobid reqs).value.1.freeJobAllocation
            jobid).chips := by
  intro always
  have restored := always threeCores fragmented "3.server" [threadReq 2] (by decide +kernel)
  have cores := map_cores_of_restored restored
  revert cores
  decide +kernel

theorem place_then_free_restores_fragmented :
    Admissible (Machine.step ℚ) (Machine.Steady ℚ) threeCores.idle fragmented ∧
      List.Forall₂ Chip.Restored (run (Machine.step ℚ) threeCores.idle fragmented).chips
        (((run (Machine.step ℚ) threeCores.idle fragmented).placeJob ℚ "3.server"
          [threadReq 1]).value.1.freeJobAllocation "3.server").chips := by
  have steady : Admissible (Machine.step ℚ) (Machine.Steady ℚ) threeCores.idle fragmented := by
    decide +kernel
  exact ⟨steady, place_then_free_restores threeCores fragmented steady "3.server" [threadReq 1]
    (by decide +kernel) (by decide +kernel)⟩

end Torque.Numa
