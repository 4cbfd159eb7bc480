import Torque.Numa.Allocation
import Torque.Numa.Core
import Torque.Structure.Row
import Torque.Transition.Traced

/-!
# Chips

A chip (a NUMA node) has cores, accelerators and memory, and keeps a record of
each allocation made on it.  This module has the parts of which its functions
are made: the tests of what fits, the scans that choose units and cores, and
the reservation of a unit, a core or an accelerator.

A chip has at least one core.  An index outside `cores` would be outside the
vector in the source, where nothing is defined; it reserves nothing here.  The
values of floating point type are those of an arbitrary `Floating` type.  The
scans return the units or cores they chose; whether they regard them as fitting
is read by nothing on the way of a job.

Two functions rely on the state of the units without checking it again when
they reserve them: the scan for contiguous threads, and giving a job all
execution slots.  The calls of these are recorded as `Look`s.
-/

namespace Torque.Numa

open Torque.Transition

/-- The accelerators that are told apart. -/
inductive DeviceType where
  | gpu
  | mic
  deriving DecidableEq, Repr

/-- A `PCI_Device`. -/
structure Device where
  type : DeviceType
  id : Int
  busy : Bool
  deriving DecidableEq, Repr

/-- `Chip`, with its totals and what is left of them. -/
structure Chip where
  totalCores : Int
  totalThreads : Int
  availableCores : Int
  availableThreads : Int
  availableGpus : Int
  availableMics : Int
  chipExclusive : Bool
  memory : Nat
  availableMemory : Nat
  cores : List Core
  devices : List Device
  allocations : List Allocation
  deriving DecidableEq, Repr

/-- A call that takes the units it is shown, or all units, without checking
them again. -/
inductive Look where
  /-- `getContiguousThreadVector` looks for a number of units. -/
  | contiguous (units : List Pu) (wanted : Int)
  /-- `place_all_execution_slots` gives a job the chip as it stands. -/
  | all (chip : Chip) (jobid : String) (coresOnly : Bool)

/-- A computation that records its looks. -/
abbrev Looking := Traced Look

namespace Chip

section

variable (chip : Chip)

/-- The processing units of all cores, in the order in which they are scanned. -/
def units : List Pu :=
  chip.cores.flatMap Core.units

/-- `chipIsAvailable`. -/
def chipIsAvailable : Bool :=
  !chip.chipExclusive

/-- `is_completely_free`. -/
def isCompletelyFree : Bool :=
  chip.allocations.isEmpty

/-- `getAvailableThreads`. -/
def getAvailableThreads : Int :=
  if chip.chipExclusive then 0 else chip.availableThreads

/-- `get_available_gpus`. -/
def getAvailableGpus : Int :=
  if chip.chipExclusive then 0 else chip.availableGpus

/-- `free_core_count`. -/
def freeCoreCount : Int :=
  chip.cores.countP Core.free

/-- `task_will_fit`. -/
def taskWillFit (r : Req) (placeType : PlaceType) : Bool :=
  decide (r.memory ≤ chip.availableMemory ∧ r.gpus ≤ chip.availableGpus ∧
    r.mics ≤ chip.availableMics ∧
    if r.useCores ∨ placeType = .legacy then r.maxCpus ≤ chip.freeCoreCount
    else r.maxCpus ≤ chip.availableThreads)

end

/-! ### How many tasks fit -/

section

variable {F : Type} [Floating F]

/-- The smaller of the two numbers. -/
def atMost (tasks bound : F) : F :=
  if Floating.lt bound tasks then bound else tasks

variable (chip : Chip) (r : Req) (placeType : PlaceType)

/-- The tasks for which there are processors. -/
def cpuTasks : F :=
  if r.useCores ∨ placeType = .legacy then
    Floating.div (Floating.ofInt chip.freeCoreCount) (Floating.ofInt r.maxCpus)
  else
    Floating.div (Floating.ofInt chip.availableThreads) (Floating.ofInt r.maxCpus)

variable (tasks : F)

/-- The tasks for which there is memory as well. -/
def memTasks : F :=
  if r.memory ≠ 0 then
    atMost (Floating.div (Floating.ofInt chip.availableMemory) (Floating.ofInt r.memory)) tasks
  else tasks

/-- The tasks for which there are GPUs as well. -/
def gpuTasks : F :=
  if 0 < r.gpus then
    atMost tasks (Floating.div (Floating.ofInt chip.availableGpus) (Floating.ofInt r.gpus))
  else tasks

/-- The number of tasks is compared with the MICs of one task, not with the
number of tasks the MICs allow. -/
def micTasks : F :=
  if 0 < r.mics then
    if Floating.lt (Floating.ofInt r.mics) tasks then
      Floating.div (Floating.ofInt chip.availableMics) (Floating.ofInt r.mics)
    else tasks
  else tasks

/-- `how_many_tasks_fit`. -/
def howManyTasksFit : F :=
  if chip.chipExclusive = false ∧ (placeType.practical ≠ .chip ∨ chip.chipIsAvailable) then
    if placeType.practical = .chip then
      atMost (chip.micTasks r (chip.gpuTasks r (chip.memTasks r (chip.cpuTasks r placeType))))
        (Floating.ofInt 1)
    else chip.micTasks r (chip.gpuTasks r (chip.memTasks r (chip.cpuTasks r placeType)))
  else Floating.ofInt 0

end

end Chip

/-! ## Choosing units -/

/-- The scan of `getOpenThreadVector`: the first `wanted` units that are not
busy, all of them if fewer are left or `wanted` is negative. -/
def openUnits : List Pu → Int → List Int
  | [], _ => []
  | unit :: units, wanted =>
    if unit.busy then openUnits units wanted
    else if wanted - 1 = 0 then [unit.index]
    else unit.index :: openUnits units (wanted - 1)

/-- The first scan of `getContiguousThreadVector`; `slots` are the units of the
run found so far and `left` is how many it still needs.  A busy unit met while
`slots` is not empty clears it and is itself put on it. -/
def contiguousUnits (wanted : Int) : List Pu → List Int → Int → Option (List Int)
  | [], _, _ => none
  | unit :: units, slots, left =>
    if unit.busy then
      if slots = [] then contiguousUnits wanted units slots left
      else if wanted - 1 = 0 then some [unit.index]
      else contiguousUnits wanted units [unit.index] (wanted - 1)
    else if left - 1 = 0 then some (slots ++ [unit.index])
    else contiguousUnits wanted units (slots ++ [unit.index]) (left - 1)

/-- The first scan of `getContiguousCoreVector`, which is content with fewer
cores than wanted when they are the last ones of the chip. -/
def contiguousCores (wanted : Int) : List Core → Nat → List Nat → Int → Option (List Nat)
  | [], _, _, _ => none
  | core :: cores, position, slots, left =>
    if core.free then
      if left - 1 = 0 ∨ cores = [] then some (slots ++ [position])
      else contiguousCores wanted cores (position + 1) (slots ++ [position]) (left - 1)
    else contiguousCores wanted cores (position + 1) [] wanted

/-- The second scan of `getContiguousCoreVector`. -/
def freeCores : List Core → Nat → Int → List Nat
  | [], _, _ => []
  | core :: cores, position, wanted =>
    if wanted ≤ 0 then []
    else if core.free then position :: freeCores cores (position + 1) (wanted - 1)
    else freeCores cores (position + 1) wanted

namespace Chip

variable (chip : Chip) (wanted : Int)

/-- `getOpenThreadVector`. -/
def getOpenThreadVector : List Int :=
  if wanted = 0 then [] else openUnits chip.units wanted

/-- `getContiguousThreadVector`. -/
def getContiguousThreadVector : List Int :=
  if wanted = 0 then []
  else (contiguousUnits wanted chip.units [] wanted).getD (openUnits chip.units wanted)

/-- `getContiguousCoreVector`, with the positions of the cores. -/
def getContiguousCoreVector : List Nat :=
  if wanted = 0 then []
  else (contiguousCores wanted chip.cores 0 [] wanted).getD (freeCores chip.cores 0 wanted)

end Chip

/-! ## Reserving -/

/-- Enter a processor into an allocation.  One that is only set aside goes to
`cpu_place_indices`. -/
def Allocation.enter (a : Allocation) (pinned : Bool) (index cores threads : Int) : Allocation :=
  if pinned then
    { a with
      cpuIndices := a.cpuIndices ++ [index]
      cpus := a.cpus + 1
      cores := a.cores + cores
      threads := a.threads + threads }
  else
    { a with
      cpuPlaceIndices := a.cpuPlaceIndices ++ [index]
      cores := a.cores + cores
      threads := a.threads + threads }

/-- A chip together with the allocation that is being made on it. -/
structure Booking where
  chip : Chip
  alloc : Allocation
  deriving DecidableEq, Repr

namespace Booking

variable (pinned : Bool) (b : Booking)

/-- Take all units of a core that is free. -/
def takeCore (coreIndex : Nat) : Booking :=
  match b.chip.cores[coreIndex]? with
  | some core =>
    if core.free then
      { chip := { b.chip with
          cores := b.chip.cores.set coreIndex (core.takeUnits (core.units.length + 1))
          availableCores := b.chip.availableCores - 1
          availableThreads := b.chip.availableThreads - core.totalThreads }
        alloc := b.alloc.enter pinned core.id 1 core.totalThreads }
    else b
  | none => b

/-- `reserve_core`. -/
def reserveCore : Booking → Nat → Booking :=
  takeCore true

/-- `reserve_chip_core`. -/
def reserveChipCore : Booking → Nat → Booking :=
  takeCore false

/-- The first core that has the unit reserves it. -/
def reserveUnit (index : Int) : List Core → Option (List Core)
  | [] => none
  | core :: cores =>
    match core.reserveProcessingUnit index with
    | some reserved => some (reserved :: cores)
    | none => (reserveUnit index cores).map (core :: ·)

/-- Take the unit, busy or not. -/
def takeUnit (index : Int) : Booking :=
  match reserveUnit index b.chip.cores with
  | some cores =>
    { chip := { b.chip with
        cores := cores
        availableThreads := b.chip.availableThreads - 1 }
      alloc := b.alloc.enter pinned index 0 1 }
  | none => b

/-- `reserve_place_thread`. -/
def reservePlaceThread : Booking → Int → Booking :=
  takeUnit true

/-- `reserve_chip_place_thread`. -/
def reserveChipPlaceThread : Booking → Int → Booking :=
  takeUnit false

/-- `reserve_thread`.  A core without an open unit is marked as not free. -/
def reserveThread (b : Booking) (coreIndex : Nat) : Bool × Booking :=
  match b.chip.cores[coreIndex]? with
  | some core =>
    match core.getOpenProcessingUnit with
    | (some index, taken) =>
      (true,
        { chip := { b.chip with
            cores := b.chip.cores.set coreIndex taken
            availableThreads := b.chip.availableThreads - 1 }
          alloc := b.alloc.enter true index 0 1 })
    | (none, full) =>
      (false, { b with chip := { b.chip with cores := b.chip.cores.set coreIndex full } })
  | none => (false, b)

end Booking

/-- The first device of the type that is not busy. -/
def takeDevice (type : DeviceType) : List Device → Option (Int × List Device)
  | [] => none
  | device :: devices =>
    if device.type = type ∧ device.busy = false then
      some (device.id, { device with busy := true } :: devices)
    else (takeDevice type devices).map fun taken => (taken.1, device :: taken.2)

namespace Chip

/-- The devices after one has been taken or given back, and their counter. -/
def withDevices (chip : Chip) (devices : List Device) (type : DeviceType) (change : Int) : Chip :=
  { chip with
    devices := devices
    availableMics := if type = .mic then chip.availableMics + change else chip.availableMics
    availableGpus := if type = .mic then chip.availableGpus else chip.availableGpus + change }

/-- `reserve_accelerator`. -/
def reserveAccelerator (chip : Chip) (type : DeviceType) : Option Int × Chip :=
  match takeDevice type chip.devices with
  | some (index, devices) => (some index, chip.withDevices devices type (-1))
  | none => (none, chip)

/-- A loop of `place_accelerators`, with the accelerators it got. -/
def takeAccelerators (type : DeviceType) : Nat → Chip → List Int × Chip
  | 0, chip => ([], chip)
  | wanted + 1, chip =>
    match chip.reserveAccelerator type with
    | (some index, chip) =>
      (index :: (takeAccelerators type wanted chip).1, (takeAccelerators type wanted chip).2)
    | (none, chip) => ([], chip)

end Chip

/-- `place_accelerators`, with what remains to be placed. -/
def Booking.placeAccelerators (b : Booking) (remaining : Allocation) : Booking × Allocation :=
  let gpus := b.chip.takeAccelerators .gpu remaining.gpus.toNat
  let mics := gpus.2.takeAccelerators .mic remaining.mics.toNat
  ({ chip := mics.2
     alloc := { b.alloc with
      gpuIndices := b.alloc.gpuIndices ++ gpus.1
      micIndices := b.alloc.micIndices ++ mics.1 } },
    { remaining with
      gpus := remaining.gpus - gpus.1.length
      mics := remaining.mics - mics.1.length })

end Torque.Numa
