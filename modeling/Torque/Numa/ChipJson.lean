import Torque.Numa.RangeString
import Torque.Numa.Task
import Torque.Text.AnyBase

/-!
# A chip as JSON

A node sends its layout with the allocations on it, and writes it to a file from which it is
read when the daemon starts again.  The layout and the allocations are put down as lists of
indices and a few numbers; which units are busy and what is left over is not, but is worked out
again by reserving what the allocations list.

The JSON library is taken to give back the values that were put in.  The index of the chip
itself is left out, as everywhere.  Memory is a natural number, and what is taken from less is
nothing.
-/

namespace Torque.Numa

open Torque.JobArrays Torque.Text

/-- The `allocation` object.  The accelerators are left out if there are none. -/
structure AllocationJson where
  jobid : String
  cpus : List Char
  mem : List Char
  exclusive : PlaceType
  coresOnly : Int
  gpus : Option (List Char)
  mics : Option (List Char)
  deriving DecidableEq, Repr

/-- The `numanode` object. -/
structure ChipJson where
  cores : List Char
  threads : List Char
  mem : List Char
  gpus : Option (List Char)
  mics : Option (List Char)
  allocations : List AllocationJson
  deriving DecidableEq, Repr

/-! ## Writing -/

/-- An entry that is only made for a text that is not empty. -/
def ifSome (text : List Char) : Option (List Char) :=
  if text = [] then none else some text

/-- The body of the loop of `displayAllocationsAsJson`. -/
def Allocation.asJson (a : Allocation) : AllocationJson where
  jobid := a.jobid
  cpus := translateVectorToRangeString a.cpuIndices
  mem := decimal a.memory
  exclusive := a.placeType
  coresOnly := if a.coresOnly then 1 else 0
  gpus := ifSome (translateVectorToRangeString a.gpuIndices)
  mics := ifSome (translateVectorToRangeString a.micIndices)

namespace Chip

variable (chip : Chip)

/-- `displayAllocationsAsJson`. -/
def displayAllocationsAsJson : List AllocationJson :=
  chip.allocations.map Allocation.asJson

/-- The ids of the devices of one type. -/
def deviceIds (type : DeviceType) : List Int :=
  (chip.devices.filter fun device => device.type = type).map Device.id

/-- `displayAsJson`.  The first unit of a core stands for the core, the others are threads. -/
def displayAsJson (includeJobs : Bool) : ChipJson where
  cores := translateVectorToRangeString
    (chip.cores.flatMap fun core => (core.units.take 1).map Pu.index)
  threads := translateVectorToRangeString
    (chip.cores.flatMap fun core => (core.units.drop 1).map Pu.index)
  mem := decimal chip.memory
  gpus := ifSome (translateVectorToRangeString (chip.deviceIds .gpu))
  mics := ifSome (translateVectorToRangeString (chip.deviceIds .mic))
  allocations := if includeJobs then chip.displayAllocationsAsJson else []

end Chip

/-! ## Reading -/

/-- The indices of a range string; a string that is left out is empty. -/
def readRange (rangeString : Option (List Char)) : List Int :=
  (translateRangeStringToVector (rangeString.getD [])).2

/-- `initialize_allocation`, if its id is valid. -/
def AllocationJson.read (json : AllocationJson) : Allocation where
  jobid := json.jobid
  cpuIndices := readRange json.cpus
  memory := strtoulAnyBase json.mem
  placeType := json.exclusive
  coresOnly := decide (json.coresOnly ≠ 0)
  gpuIndices := readRange json.gpus
  micIndices := readRange json.mics

/-- `initialize_allocations`. -/
def initializeAllocations (validIds : List String) (json : List AllocationJson) :
    List Allocation :=
  (json.filter fun a => decide (a.jobid ∈ validIds)).map AllocationJson.read

/-- `Core::Core`. -/
def Core.new : Core where
  id := -1
  totalThreads := 0
  free := true
  units := []
  processingUnitsOpen := 0

/-- The `which` of `add_processing_unit`. -/
inductive UnitKind where
  | core
  | thread
  deriving DecidableEq, Repr

/-- `add_processing_unit`.  A core is not named twice. -/
def Core.addProcessingUnit (which : UnitKind) (core : Core) (osIndex : Int) : Core :=
  if which = .core ∧ core.id ≠ -1 then core
  else
    { core with
      id := if which = .core then osIndex else core.id
      units := core.units ++ [⟨osIndex, false⟩]
      processingUnitsOpen := core.processingUnitsOpen + 1
      totalThreads := core.totalThreads + 1 }

namespace Chip

/-- The loop of `initialize_cores_from_strings`: each core gets as many of the threads. -/
def addCores (ratio : Nat) : List Int → List Int → Chip → Chip
  | [], _, chip => chip
  | index :: coreIndices, threadIndices, chip =>
    addCores ratio coreIndices (threadIndices.drop ratio)
      { chip with
        cores := chip.cores ++ [(threadIndices.take ratio).foldl (Core.addProcessingUnit .thread)
          (Core.new.addProcessingUnit .core index)]
        totalThreads := chip.totalThreads + 1 + ratio }

/-- `initialize_cores_from_strings`.  The number of threads is divided by the number of cores,
which is not defined if there is no core. -/
def initializeCoresFromStrings (cores threads : List Char) (chip : Chip) : Option Chip :=
  let coreIndices := readRange cores
  let threadIndices := readRange threads
  if coreIndices = [] then none
  else
    let added := chip.addCores (threadIndices.length / coreIndices.length) coreIndices threadIndices
    some { added with
      totalCores := added.cores.length
      availableCores := added.cores.length
      availableThreads := added.totalThreads }

/-- `initialize_accelerators_from_strings`. -/
def initializeAcceleratorsFromStrings (gpus mics : Option (List Char)) (chip : Chip) : Chip :=
  { chip with
    devices := chip.devices ++ (readRange gpus).map (fun index => ⟨.gpu, index, false⟩) ++
      (readRange mics).map fun index => ⟨.mic, index, false⟩
    availableGpus := (readRange gpus).length
    availableMics := (readRange mics).length }

/-- The number of units of the first core that has the unit. -/
def threadsBeside (chip : Chip) (index : Int) : Int :=
  ((chip.cores.find? fun core => core.units.any fun unit => decide (unit.index = index)).map
    Core.totalThreads).getD 0

end Chip

/-- A processor that an allocation lists: only the unit itself is reserved, but a whole core is
counted for an allocation of whole cores. -/
def Booking.recount (b : Booking) (index : Int) : Booking :=
  match Booking.reserveUnit index b.chip.cores with
  | some cores =>
    if b.alloc.coresOnly then
      { chip := { b.chip with
          cores := cores
          availableCores := b.chip.availableCores - 1
          availableThreads := b.chip.availableThreads - b.chip.threadsBeside index }
        alloc := { b.alloc with
          threads := b.alloc.threads + b.chip.threadsBeside index
          cores := b.alloc.cores + 1
          cpus := b.alloc.cpus + 1 } }
    else
      { chip := { b.chip with
          cores := cores
          availableThreads := b.chip.availableThreads - 1 }
        alloc := { b.alloc with threads := b.alloc.threads + 1 } }
  | none => b

/-- The first device with this type and id becomes busy. -/
def setDevice (type : DeviceType) (id : Int) : List Device → Option (List Device)
  | [] => none
  | device :: devices =>
    if device.type = type ∧ device.id = id then some ({ device with busy := true } :: devices)
    else (setDevice type id devices).map (device :: ·)

namespace Chip

/-- An accelerator that an allocation lists. -/
def recountDevice (type : DeviceType) (chip : Chip) (id : Int) : Chip :=
  match setDevice type id chip.devices with
  | some devices => chip.withDevices devices type (-1)
  | none => chip

/-- `reserve_allocation_resources`. -/
def reserveAllocationResources (chip : Chip) (a : Allocation) : Booking :=
  let b := a.cpuIndices.foldl Booking.recount ⟨chip, a⟩
  let counted := { b.chip with availableMemory := b.chip.availableMemory - a.memory }
  let devices := a.micIndices.foldl (recountDevice .mic)
    (a.gpuIndices.foldl (recountDevice .gpu) counted)
  { chip := { devices with
      chipExclusive := devices.chipExclusive || decide (a.placeType.practical = .chip) }
    alloc := b.alloc }

/-- `adjust_open_resources`: the allocations are counted one after the other, in place. -/
def adjustOpenResources (chip : Chip) : Chip :=
  chip.allocations.foldl
    (fun chip a =>
      let b := chip.reserveAllocationResources a
      { b.chip with allocations := b.chip.allocations ++ [b.alloc] })
    { chip with allocations := [] }

variable (json : ChipJson) (validIds : List String)

/-- The chip that `parse_values_from_json_string` leaves. -/
def parseValuesFromJson : Chip where
  totalCores := 0
  totalThreads := 0
  availableCores := 0
  availableThreads := 0
  availableGpus := 0
  availableMics := 0
  chipExclusive := false
  memory := (strtolAnyBase json.mem % 2 ^ 64).toNat
  availableMemory := (strtolAnyBase json.mem % 2 ^ 64).toNat
  cores := []
  devices := []
  allocations := initializeAllocations validIds json.allocations

/-- `Chip(const Json::Value &layout, valid_ids)`, of a layout that is not empty. -/
def ofJson : Option Chip :=
  ((parseValuesFromJson json validIds).initializeCoresFromStrings json.cores json.threads).map
    fun chip => (chip.initializeAcceleratorsFromStrings json.gpus json.mics).adjustOpenResources

end Chip

end Torque.Numa
