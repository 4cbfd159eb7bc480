import Torque.Numa.ChipJson
import Torque.Numa.Runs

/-!
# Reading the JSON of a chip

What `displayAsJson` puts down is read back: the layout, if its cores have one size, and of each
allocation what it uses.  The chip that is read is idle, with its GPUs before its MICs, until its
allocations are counted.
-/

namespace Torque.Numa

open Torque.Text List

/-! ## What is put down and read -/

/-- An index that can be printed and read back as an `int`, and so can the next one, with which
the printing loop compares. -/
def SmallIndex (index : Int) : Prop :=
  0 ≤ index ∧ index < 2 ^ 31 - 1

instance : DecidablePred SmallIndex :=
  fun index => inferInstanceAs (Decidable (0 ≤ index ∧ index < 2 ^ 31 - 1))

variable {indices : List Int}

theorem readRange_translate (small : ∀ index ∈ indices, SmallIndex index) :
    readRange (translateVectorToRangeString indices) = indices := by
  have within : ∀ index ∈ indices, 0 ≤ index ∧ index < 2 ^ 31 := by
    intro index mem
    have bounds := small index mem
    unfold SmallIndex at bounds
    omega
  unfold readRange
  rw [Option.getD_some, translateRangeStringToVector_translateVectorToRangeString within]

theorem readRange_ifSome (small : ∀ index ∈ indices, SmallIndex index) :
    readRange (ifSome (translateVectorToRangeString indices)) = indices := by
  have read := readRange_translate small
  unfold ifSome
  split
  · next empty =>
    rw [empty] at read
    exact read
  · exact read

namespace Allocation

/-- What is left of an allocation that is put down and read: what it uses, but not the
processors that are only set aside, nor the numbers. -/
def reread (a : Allocation) : Allocation where
  jobid := a.jobid
  cpuIndices := a.cpuIndices
  gpuIndices := a.gpuIndices
  micIndices := a.micIndices
  memory := a.memory
  placeType := a.placeType
  coresOnly := a.coresOnly

/-- An allocation whose numbers are within their types. -/
structure Small (a : Allocation) : Prop where
  cpus : ∀ index ∈ a.cpuIndices, SmallIndex index
  gpus : ∀ index ∈ a.gpuIndices, SmallIndex index
  mics : ∀ index ∈ a.micIndices, SmallIndex index
  memory : a.memory < 2 ^ 64

theorem Small.read_asJson {a : Allocation} (small : a.Small) : a.asJson.read = a.reread := by
  have cpus : readRange a.asJson.cpus = a.cpuIndices := readRange_translate small.cpus
  have gpus : readRange a.asJson.gpus = a.gpuIndices := readRange_ifSome small.gpus
  have mics : readRange a.asJson.mics = a.micIndices := readRange_ifSome small.mics
  have memory : strtoulAnyBase a.asJson.mem = a.memory := strtoulAnyBase_decimal small.memory
  have whole : decide (a.asJson.coresOnly ≠ 0) = a.coresOnly := by
    unfold asJson
    cases a.coresOnly <;> rfl
  unfold AllocationJson.read
  rw [cpus, gpus, mics, memory, whole]
  rfl

end Allocation

theorem initializeAllocations_asJson {validIds : List String} {records : List Allocation}
    (valid : ∀ a ∈ records, a.jobid ∈ validIds) (small : ∀ a ∈ records, a.Small) :
    initializeAllocations validIds (records.map Allocation.asJson) =
      records.map Allocation.reread := by
  have all : (records.map Allocation.asJson).filter (fun a => decide (a.jobid ∈ validIds)) =
      records.map Allocation.asJson := by
    exact filter_eq_self.mpr (forall_mem_map.mpr fun a inside => decide_eq_true (valid a inside))
  unfold initializeAllocations
  rw [all, map_map]
  exact map_congr_left fun a mem => (small a mem).read_asJson

/-! ### The cores -/

theorem foldl_addProcessingUnit (core : Core) (threads : List Int) :
    threads.foldl (Core.addProcessingUnit .thread) core =
      { core with
        units := core.units ++ threads.map fun index => ⟨index, false⟩
        processingUnitsOpen := core.processingUnitsOpen + threads.length
        totalThreads := core.totalThreads + threads.length } := by
  induction threads generalizing core with
  | nil => simp
  | cons index threads ih =>
    rw [foldl_cons, ih]
    simp [Core.addProcessingUnit]
    omega

/-- A core that is put together from its units. -/
theorem CoreLayout.assembled (layout : CoreLayout) :
    (layout.indices.drop 1).foldl (Core.addProcessingUnit .thread)
        (Core.new.addProcessingUnit .core layout.id) = layout.core fun _ => false := by
  obtain ⟨id, indices, first⟩ := layout
  obtain ⟨rest, rfl⟩ := head?_eq_some_iff.mp first
  rw [foldl_addProcessingUnit]
  simp [CoreLayout.core, Core.new, Core.addProcessingUnit, Int.add_comm]

theorem addCores_layouts {ratio : Nat} {layouts : List CoreLayout}
    (even : ∀ core ∈ layouts, core.indices.length = ratio + 1) (chip : Chip) :
    chip.addCores ratio (layouts.map CoreLayout.id)
        (layouts.flatMap fun core => core.indices.drop 1) =
      { chip with
        cores := chip.cores ++ layouts.map fun core => core.core fun _ => false
        totalThreads := chip.totalThreads + (layouts.flatMap CoreLayout.indices).length } := by
  induction layouts generalizing chip with
  | nil => simp [Chip.addCores]
  | cons core layouts ih =>
    have length : (core.indices.drop 1).length = ratio := by
      rw [length_drop, even core mem_cons_self]
      rfl
    have size := even core mem_cons_self
    rw [map_cons, flatMap_cons, Chip.addCores, take_left' length, drop_left' length, core.assembled,
      ih (forall_mem_cons.mp even).2]
    simp [append_assoc, size]
    omega

/-! ### The chip before its allocations are counted -/

/-- The layout with the GPUs before the MICs. -/
def ChipLayout.sorted (layout : ChipLayout) : ChipLayout where
  cores := layout.cores
  devices := layout.devices.filter (fun name => name.1 = .gpu) ++
    layout.devices.filter fun name => name.1 = .mic
  memory := layout.memory
  distinct := layout.distinct
  distinctDevices := by
    refine nodup_append.mpr
      ⟨layout.distinctDevices.filter _, layout.distinctDevices.filter _, ?_⟩
    rintro name gpu other mic rfl
    have type := (mem_filter.mp gpu).2
    have type' := (mem_filter.mp mic).2
    simp_all

theorem ChipLayout.mem_devices_sorted {layout : ChipLayout} {name : DeviceName} :
    name ∈ layout.sorted.devices ↔ name ∈ layout.devices := by
  obtain ⟨type, id⟩ := name
  cases type <;> simp [sorted]

/-- A layout whose numbers are within their types, with cores of one size. -/
structure ChipLayout.Printable (layout : ChipLayout) : Prop where
  nonempty : layout.cores ≠ []
  even : ∀ core ∈ layout.cores, ∀ other ∈ layout.cores, core.indices.length = other.indices.length
  indices : ∀ index ∈ layout.indices, SmallIndex index
  devices : ∀ name ∈ layout.devices, SmallIndex name.2
  memory : layout.memory < 2 ^ 63

/-- The ids of the devices of a type. -/
def ChipLayout.deviceIds (layout : ChipLayout) (type : DeviceType) : List Int :=
  (layout.devices.filter fun name => name.1 = type).map Prod.snd

namespace ChipLayout

variable {layout : ChipLayout} {chip : Chip} {t : Tally}

theorem Shows.deviceIds (shows : layout.Shows chip t) (type : DeviceType) :
    chip.deviceIds type = layout.deviceIds type := by
  unfold Chip.deviceIds ChipLayout.deviceIds
  rw [shows.devices, filter_map, map_map]
  rfl

theorem Shows.coreIndices (shows : layout.Shows chip t) :
    (chip.cores.flatMap fun core => (core.units.take 1).map Pu.index) =
      layout.cores.map CoreLayout.id := by
  rw [shows.cores, flatMap_map]
  induction layout.cores with
  | nil => rfl
  | cons core cores ih =>
    obtain ⟨rest, listed⟩ := head?_eq_some_iff.mp core.first
    rw [flatMap_cons, map_cons, ih]
    simp [CoreLayout.core, listed]

theorem Shows.threadIndices (shows : layout.Shows chip t) :
    (chip.cores.flatMap fun core => (core.units.drop 1).map Pu.index) =
      layout.cores.flatMap fun core => core.indices.drop 1 := by
  rw [shows.cores, flatMap_map]
  congr 1
  funext core
  simp [CoreLayout.core, ← map_drop, Function.comp_def]

theorem Printable.coreIds (printable : layout.Printable) :
    ∀ index ∈ layout.cores.map CoreLayout.id, SmallIndex index :=
  forall_mem_map.mpr fun core inside =>
    printable.indices core.id (mem_flatMap.mpr ⟨core, inside, core.id_mem⟩)

theorem Printable.threadIds (printable : layout.Printable) :
    ∀ index ∈ layout.cores.flatMap (fun core => core.indices.drop 1), SmallIndex index := by
  intro index mem
  obtain ⟨core, inside, later⟩ := mem_flatMap.mp mem
  exact printable.indices index
    (mem_flatMap.mpr ⟨core, inside, mem_of_mem_drop later⟩)

theorem Printable.deviceIds (printable : layout.Printable) (type : DeviceType) :
    ∀ index ∈ layout.deviceIds type, SmallIndex index :=
  forall_mem_map.mpr fun name inside => printable.devices name (mem_filter.mp inside).1

/-- The threads are dealt out as they were. -/
theorem length_threads {layouts : List CoreLayout} {size : Nat}
    (even : ∀ core ∈ layouts, core.indices.length = size + 1) :
    (layouts.flatMap fun core => core.indices.drop 1).length = layouts.length * size := by
  have one : ∀ core ∈ layouts, (core.indices.drop 1).length = size := by
    intro core mem
    rw [length_drop, even core mem]
    rfl
  rw [length_flatMap, map_congr_left one, map_const', sum_replicate, nsmul_eq_mul, Nat.cast_id]

theorem Printable.initializeCores (printable : layout.Printable) (fresh : Chip)
    (empty : fresh.cores = []) (uncounted : fresh.totalThreads = 0) :
    fresh.initializeCoresFromStrings
        (translateVectorToRangeString (layout.cores.map CoreLayout.id))
        (translateVectorToRangeString (layout.cores.flatMap fun core => core.indices.drop 1)) =
      some { fresh with
        cores := layout.cores.map fun core => core.core fun _ => false
        totalCores := layout.cores.length
        totalThreads := layout.indices.length
        availableCores := layout.cores.length
        availableThreads := layout.indices.length } := by
  obtain ⟨core, inside⟩ := exists_mem_of_ne_nil _ printable.nonempty
  obtain ⟨size, length⟩ := Nat.exists_eq_succ_of_ne_zero (Nat.ne_of_gt
    (length_pos_of_ne_nil (ne_nil_of_mem core.id_mem)))
  have even : ∀ other ∈ layout.cores, other.indices.length = size + 1 :=
    fun other mem => (printable.even other mem core inside).trans length
  have ratio : (layout.cores.flatMap fun core => core.indices.drop 1).length /
      (layout.cores.map CoreLayout.id).length = size := by
    rw [length_threads even, length_map]
    exact Nat.mul_div_cancel_left _ (length_pos_of_ne_nil printable.nonempty)
  have listed : layout.cores.map CoreLayout.id ≠ [] := by
    simpa using printable.nonempty
  unfold Chip.initializeCoresFromStrings
  rw [readRange_translate printable.coreIds, readRange_translate printable.threadIds]
  rw [if_neg listed, ratio, addCores_layouts even, empty, uncounted]
  simp [ChipLayout.indices]

theorem length_deviceIds (type : DeviceType) :
    (layout.deviceIds type).length = layout.sorted.idle type [] := by
  unfold ChipLayout.deviceIds idle sorted
  rw [length_map, busyDevice_nil, filter_append, filter_filter, filter_filter]
  cases type <;> simp +contextual

/-- The devices are those of the layout, sorted. -/
theorem devices_sorted :
    layout.sorted.devices.map (deviceOf fun _ => false) =
      (layout.deviceIds .gpu).map (fun index => ⟨.gpu, index, false⟩) ++
        (layout.deviceIds .mic).map fun index => ⟨.mic, index, false⟩ := by
  have each : ∀ type, (layout.devices.filter fun name => name.1 = type).map (deviceOf fun _ => false) =
      (layout.deviceIds type).map fun index => ⟨type, index, false⟩ := by
    intro type
    unfold ChipLayout.deviceIds
    rw [map_map]
    apply map_congr_left
    intro name mem
    have kind : name.1 = type := by simpa using (mem_filter.mp mem).2
    rw [Function.comp_apply, deviceOf, kind]
  unfold sorted
  rw [map_append, each, each]

theorem Shows.ofJson (shows : layout.Shows chip t) (printable : layout.Printable)
    {validIds : List String} (valid : ∀ a ∈ chip.allocations, a.jobid ∈ validIds)
    (small : ∀ a ∈ chip.allocations, a.Small) :
    Chip.ofJson (chip.displayAsJson true) validIds =
      some { layout.sorted.idleChip with
        allocations := chip.allocations.map Allocation.reread }.adjustOpenResources := by
  have memory : (strtolAnyBase (decimal chip.memory) % 2 ^ 64).toNat = layout.memory := by
    have bound := printable.memory
    rw [shows.memory, strtolAnyBase_decimal bound]
    omega
  have allocations : initializeAllocations validIds (chip.displayAsJson true).allocations =
      chip.allocations.map Allocation.reread := initializeAllocations_asJson valid small
  have ids : ∀ type, readRange (ifSome (translateVectorToRangeString (chip.deviceIds type))) =
      layout.deviceIds type := by
    intro type
    rw [shows.deviceIds]
    exact readRange_ifSome (printable.deviceIds type)
  have gpus : readRange (chip.displayAsJson true).gpus = layout.deviceIds .gpu := ids .gpu
  have mics : readRange (chip.displayAsJson true).mics = layout.deviceIds .mic := ids .mic
  have cores := printable.initializeCores
    (Chip.parseValuesFromJson (chip.displayAsJson true) validIds) rfl rfl
  rw [← shows.coreIndices, ← shows.threadIndices] at cores
  refine (congrArg (Option.map _) cores).trans ?_
  rw [Option.map_some, Chip.initializeAcceleratorsFromStrings, gpus, mics, length_deviceIds,
    length_deviceIds]
  congr 2
  unfold Chip.parseValuesFromJson idleChip
  rw [allocations, devices_sorted, show (chip.displayAsJson true).mem = decimal chip.memory from rfl,
    memory]
  rfl

end ChipLayout

end Torque.Numa
