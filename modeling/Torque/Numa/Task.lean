import Torque.Numa.Chip

/-!
# Placing tasks on a chip and freeing them

`place_task` places whole tasks of a request on a chip, `partially_place_task`
as much of one task as the chip can take, `spread_place` a share of a task that
wants chips of its own, and `place_all_execution_slots` gives a job everything.
Each leaves a record on the chip.  `free_task` and `remove_last_allocation` give
back what the records list and delete them.
-/

namespace Torque.Numa

open Torque.Transition

section

variable (F : Type) [Floating F]

/-! ## Execution slots -/

/-- The loop of `place_tasks_execution_slots` over the chosen slots: those at
the rounded multiples of `step` are pinned, the others only set aside. -/
def pinSlots {σ : Type} (reserve reserveChip : Booking → σ → Booking) (slotsPerTask : Int)
    (step : F) : List σ → Nat → F → Booking → Booking
  | [], _, _, b => b
  | slot :: slots, position, pinIndex, b =>
    if position = Floating.round pinIndex ∧ 0 < slotsPerTask then
      pinSlots reserve reserveChip slotsPerTask step slots (position + 1)
        (Floating.add pinIndex step) (reserve b slot)
    else
      pinSlots reserve reserveChip slotsPerTask step slots (position + 1) pinIndex
        (reserveChip b slot)

/-- How far the pinned slots are apart. -/
def slotStep (slotsPerTask toRsv : Int) : F :=
  if slotsPerTask < toRsv then
    if 0 < slotsPerTask then Floating.div (Floating.ofInt toRsv) (Floating.ofInt slotsPerTask)
    else Floating.ofInt toRsv
  else Floating.ofInt 1

/-- `CORE_INT` and `THREAD_INT`. -/
inductive SlotType where
  | core
  | thread

/-- `place_tasks_execution_slots`. -/
def Booking.placeTasksExecutionSlots (b : Booking) (slotsPerTask toRsv : Int) :
    SlotType → Looking Booking
  | .core =>
    pure (pinSlots F Booking.reserveCore Booking.reserveChipCore slotsPerTask
      (slotStep F slotsPerTask toRsv)
      (b.chip.getContiguousCoreVector (max slotsPerTask toRsv)) 0 (Floating.ofInt 0) b)
  | .thread => do
      Traced.record (.contiguous b.chip.units (max slotsPerTask toRsv))
      pure (pinSlots F Booking.reservePlaceThread Booking.reserveChipPlaceThread slotsPerTask
        (slotStep F slotsPerTask toRsv)
        (b.chip.getContiguousThreadVector (max slotsPerTask toRsv)) 0 (Floating.ofInt 0) b)

/-- The loop of `place_task_for_legacy_threads`. -/
def legacySlots : List Int → Nat → F → Booking → Booking
  | [], _, _, b => b
  | slot :: slots, position, pinIndex, b =>
    if position = Floating.round pinIndex then
      legacySlots slots (position + 1) (Floating.add pinIndex (Floating.ofInt 1))
        (b.reservePlaceThread slot)
    else legacySlots slots (position + 1) pinIndex b

/-- `place_task_for_legacy_threads`: one unit of each of the chosen cores, the
unit that names the core, or any units. -/
def Booking.placeTaskForLegacyThreads (b : Booking) (slotsPerTask : Int)
    (placeType : PlaceType) : Booking :=
  if placeType = .legacy then
    legacySlots F ((b.chip.getContiguousCoreVector slotsPerTask).filterMap fun position =>
      b.chip.cores[position]?.map Core.id) 0 (Floating.ofInt 0) b
  else legacySlots F (b.chip.getOpenThreadVector slotsPerTask) 0 (Floating.ofInt 0) b

/-- The three ways in which the processors of a task are found. -/
def Booking.placeProcessors (b : Booking) (slotsPerTask toRsv : Int) (coresOnly : Bool)
    (placeType : PlaceType) : Looking Booking :=
  if coresOnly then b.placeTasksExecutionSlots F slotsPerTask toRsv .core
  else if placeType = .legacy ∨ placeType = .legacy2 then
    pure (b.placeTaskForLegacyThreads F slotsPerTask placeType)
  else b.placeTasksExecutionSlots F slotsPerTask toRsv .thread

/-! ## Whole tasks -/

/-- How many processors `place_task` sets aside for a task. -/
def Req.toRsv (r : Req) : Int :=
  if r.useCores then if 0 < r.placeCores then r.placeCores else r.executionSlots
  else if 0 < r.placeThreads then r.placeThreads else r.executionSlots

/-- One round of the loop of `place_task`; the allocation is that of the task. -/
def Chip.placeOneTask (chip : Chip) (r : Req) (master : Allocation) : Looking Booking := do
  let b ← Booking.placeProcessors F
    { chip := { chip with availableMemory := chip.availableMemory - r.memory }
      alloc := { jobid := master.jobid, coresOnly := r.useCores, placeCpus := master.placeCpus,
                 memory := r.memory } }
    r.executionSlots r.toRsv r.useCores master.placeType
  pure (b.placeAccelerators (.ofReq r)).1

/-- The loop of `place_task`, with the number of tasks placed.  The allocation
is that of the chip. -/
def Booking.placeTasks (r : Req) (master : Allocation) : Nat → Booking → Looking (Booking × Nat)
  | 0, b => pure (b, 0)
  | rounds + 1, b =>
    if b.chip.taskWillFit r master.placeType then do
      let task ← b.chip.placeOneTask F r master
      if master.placeType.practical = .chip then
        pure (⟨task.chip, b.alloc.add task.alloc⟩, 1)
      else do
        let more ← placeTasks r master rounds ⟨task.chip, b.alloc.add task.alloc⟩
        pure (more.1, more.2 + 1)
    else pure (b, 0)

/-- What a function that places tasks leaves behind. -/
structure PlacedTasks where
  chip : Chip
  master : Allocation
  placed : Nat

/-- The record of a chip allocation. -/
def Booking.pushAllocation (b : Booking) : Chip :=
  { b.chip with allocations := b.chip.allocations ++ [b.alloc] }

/-- `place_task`. -/
def Chip.placeTask (chip : Chip) (r : Req) (master : Allocation) (toPlace : Int) :
    Looking PlacedTasks :=
  if (master.placeType.practical ≠ .chip ∨ chip.chipIsAvailable) ∧ chip.chipExclusive = false then do
    let done ← Booking.placeTasks F r master toPlace.toNat
      { chip := chip
        alloc := { jobid := master.jobid, placeType := master.placeType,
                   placeCpus := master.placeCpus, coresOnly := r.useCores } }
    if 0 < done.2 then
      pure
        { chip := { done.1.pushAllocation with
            chipExclusive := done.1.chip.chipExclusive || decide (master.placeType.practical = .chip) }
          master := master.add done.1.alloc
          placed := done.2 }
    else pure ⟨done.1.chip, master, 0⟩
  else pure ⟨chip, master, 0⟩

/-! ## Parts of a task -/

/-- What `partially_place_task` leaves behind. -/
structure PlacedPart where
  placedSomething : Bool
  chip : Chip
  remaining : Allocation
  taskAlloc : Allocation

variable (chip : Chip) (remaining : Allocation)

/-- Memory first: all that is asked for, or all there is.  The allocation is
marked as one of whole cores from the start; no reservation looks at the mark. -/
def Chip.takeMemory (jobid : String) : Booking × Allocation :=
  if chip.availableMemory < remaining.memory then
    ({ chip := { chip with availableMemory := 0 }
       alloc := { jobid := jobid, memory := chip.availableMemory
                  coresOnly := remaining.coresOnly } },
      { remaining with memory := remaining.memory - chip.availableMemory })
  else
    ({ chip := { chip with availableMemory := chip.availableMemory - remaining.memory }
       alloc := { jobid := jobid, memory := remaining.memory
                  coresOnly := remaining.coresOnly } },
      { remaining with memory := 0 })

/-- Whether an allocation made on a chip is worth a record. -/
def Allocation.something (a : Allocation) : Bool :=
  !a.cpuIndices.isEmpty || !a.cpuPlaceIndices.isEmpty || decide (0 < a.memory) ||
    !a.gpuIndices.isEmpty || !a.micIndices.isEmpty

/-- What remains after a part of the task has been placed. -/
def Allocation.less (remaining a : Allocation) : Allocation :=
  { remaining with
    cpus := remaining.cpus - a.cpuIndices.length
    placeCpus :=
      if 0 < remaining.placeCpus then
        remaining.placeCpus - a.cpuPlaceIndices.length - a.cpuIndices.length
      else remaining.placeCpus }

/-- `partially_place_task`. -/
def Chip.partiallyPlaceTask (taskAlloc : Allocation) :
    Looking PlacedPart := do
  let start := chip.takeMemory remaining taskAlloc.jobid
  let b ← start.1.placeProcessors F remaining.cpus
    (if 0 < remaining.placeCpus then remaining.placeCpus else remaining.cpus)
    remaining.coresOnly remaining.placeType
  let done := b.placeAccelerators start.2
  let exclusive := done.1.chip.chipExclusive ||
    decide (remaining.placeType = .socket ∨ remaining.placeType = .node)
  if done.1.alloc.something then
    pure
      { placedSomething := true
        chip := { done.1.pushAllocation with chipExclusive := exclusive }
        remaining := done.2.less done.1.alloc
        taskAlloc := { taskAlloc with placeType := remaining.placeType }.add done.1.alloc }
  else
    pure
      { placedSomething := false
        chip := { done.1.chip with chipExclusive := exclusive }
        remaining := done.2
        taskAlloc := { taskAlloc with placeType := remaining.placeType } }

/-! ## Spreading a task -/

/-- The loop of `spread_place` over the cores, `step` apart. -/
def spreadCores (step : F) : Nat → F → Booking → Booking
  | 0, _, b => b
  | rounds + 1, i, b =>
    spreadCores step rounds (Floating.add i step) (b.reserveCore (Floating.round i).toNat)

end

/-- Where the second half of `spread_place` is: how many threads it counts as
placed, and how many it has to place beyond an even share. -/
structure Spread where
  booking : Booking
  placed : Int
  remainder : Int

namespace Spread

/-- The inner loop over the share of one core. -/
def fillCore (coreIndex : Nat) : Nat → Spread → Spread
  | 0, s => s
  | rounds + 1, s =>
    let reserved := s.booking.reserveThread coreIndex
    fillCore coreIndex rounds
      { s with
        booking := reserved.2
        placed := if reserved.1 then s.placed + 1 else s.placed }

/-- The loop that gives each core its share. -/
def fillCores (slots : Int) (perCore : Nat) : List Nat → Spread → Spread
  | [], s => s
  | coreIndex :: rest, s =>
    if s.placed < slots then fillCores slots perCore rest (s.fillCore coreIndex perCore) else s

/-- One pass over the cores for the remainder. -/
def pass (slots : Int) : List Nat → Spread → Spread
  | [], s => s
  | coreIndex :: rest, s =>
    if s.placed < slots then
      let reserved := s.booking.reserveThread coreIndex
      if reserved.1 then
        pass slots rest ⟨reserved.2, s.placed + 1, s.remainder - 1⟩
      else pass slots rest { s with booking := reserved.2 }
    else s

/-- Passes until there is no remainder.  Each pass that finds an open unit
places at least one thread. -/
def passes (slots : Int) (cores : List Nat) : Nat → Spread → Spread
  | 0, s => s
  | rounds + 1, s => if 0 < s.remainder then passes slots cores rounds (s.pass slots cores) else s

end Spread

variable (b : Booking)

/-- The threads part of `spread_place`: an even share of each core first, then
the remainder; with `extra` one thread more is placed than counted. -/
def Booking.spreadOut (slots : Int) (extra : Bool) : Spread :=
  let shared := Spread.fillCores slots (slots.tdiv b.chip.totalCores).toNat
    (List.range b.chip.cores.length)
    ⟨b, if extra then -1 else 0, slots.tmod b.chip.totalCores⟩
  shared.passes slots (List.range b.chip.cores.length) shared.remainder.toNat

/-- The chip and the allocation when the threads have been placed. -/
def Booking.spreadThreads (slots : Int) (extra : Bool) : Booking :=
  (b.spreadOut slots extra).booking

/-- `aggregate_allocation`. -/
def aggregateAllocation (a : Allocation) : List Allocation → List Allocation
  | [] => [a]
  | other :: others =>
    if other.jobid = a.jobid then other.add a :: others
    else other :: aggregateAllocation a others

/-- What `spread_place` leaves behind. -/
structure PlacedSpread where
  taskPlaced : Bool
  chip : Chip
  taskAlloc : Allocation
  slotsRemainder : Int

section

variable (F : Type) [Floating F] (chip : Chip) (taskAlloc : Allocation) (slotsPer : Int)

/-- The reservations of `spread_place`; `extra` says that one slot of the
remainder comes on top. -/
def Chip.spreadSlots (extra : Bool) : Booking :=
  let slots := if extra then slotsPer + 1 else slotsPer
  if slots ≤ chip.totalCores then
    spreadCores F
      (if 0 < slots then Floating.div (Floating.ofInt chip.totalCores) (Floating.ofInt slots)
        else Floating.ofInt 1)
      slots.toNat (Floating.ofInt 0)
      ⟨chip, { jobid := taskAlloc.jobid, placeType := taskAlloc.placeType, coresOnly := true }⟩
  else
    Booking.spreadThreads
      ⟨chip, { jobid := taskAlloc.jobid, placeType := taskAlloc.placeType }⟩ slotsPer extra

/-- `Chip::spread_place`. -/
def Chip.spreadPlace (slotsRemainder : Int) : PlacedSpread :=
  if chip.isCompletelyFree ∧ slotsPer + slotsRemainder ≤ chip.totalThreads then
    let done := chip.spreadSlots F taskAlloc slotsPer (decide (0 < slotsRemainder))
    { taskPlaced := true
      chip := { done.chip with
        chipExclusive := true
        allocations := aggregateAllocation done.alloc done.chip.allocations }
      taskAlloc := taskAlloc.add done.alloc
      slotsRemainder := if 0 < slotsRemainder then slotsRemainder - 1 else slotsRemainder }
  else ⟨false, chip, taskAlloc, slotsRemainder⟩

end

/-! ## All execution slots -/

/-- The reservations of `place_all_execution_slots`. -/
def Booking.reserveAll : Booking :=
  if b.alloc.coresOnly then (List.range b.chip.cores.length).foldl Booking.reserveCore b
  else (b.chip.units.map Pu.index).foldl Booking.reservePlaceThread b

variable (chip : Chip)

/-- `Chip::place_all_execution_slots`. -/
def Chip.placeAllExecutionSlots (r : Req) (master : Allocation) :
    Looking (Chip × Allocation) := do
  Traced.record (.all chip master.jobid master.coresOnly)
  let accelerated := (Booking.placeAccelerators
    ⟨chip, { jobid := master.jobid, coresOnly := master.coresOnly }⟩ (.ofReq r)).1
  let done := accelerated.reserveAll
  pure ({ done.pushAllocation with chipExclusive := true }, master.add done.alloc)

/-! ## Freeing -/

/-- Free every unit of a core, and say whether the core is now free. -/
def Core.freeUnits (core : Core) : Core × Bool :=
  (core.units.map Pu.index).foldl
    (fun state index =>
      ((state.1.freePuIndex index).core, (state.1.freePuIndex index).coreIsNowFree))
    (core, false)

/-- The loop of `free_cpu_index` for a whole core, which is named by `index`;
says whether a core has become free. -/
def freeCoreIndex (index : Int) : List Core → List Core × Bool
  | [] => ([], false)
  | core :: cores =>
    if core.free ∨ core.id ≠ index then
      (core :: (freeCoreIndex index cores).1, (freeCoreIndex index cores).2)
    else if core.freeUnits.2 then (core.freeUnits.1 :: cores, true)
    else (core.freeUnits.1 :: (freeCoreIndex index cores).1, (freeCoreIndex index cores).2)

/-- The loop of `free_cpu_index` for a single unit. -/
def freeUnitIndex (index : Int) : List Core → List Core
  | [] => []
  | core :: cores =>
    if core.free then core :: freeUnitIndex index cores
    else if (core.freePuIndex index).freedIndex then (core.freePuIndex index).core :: cores
    else (core.freePuIndex index).core :: freeUnitIndex index cores

namespace Chip

/-- `free_cpu_index`. -/
def freeCpuIndex (incrementAvailableCores : Bool) (chip : Chip) (index : Int) : Chip :=
  if incrementAvailableCores then
    { chip with
      cores := (freeCoreIndex index chip.cores).1
      availableCores :=
        if (freeCoreIndex index chip.cores).2 then chip.availableCores + 1
        else chip.availableCores }
  else { chip with cores := freeUnitIndex index chip.cores }

/-- `free_accelerator`: every device of this type and id. -/
def freeAccelerator (type : DeviceType) (chip : Chip) (index : Int) : Chip :=
  chip.withDevices
    (chip.devices.map fun device =>
      if device.type = type ∧ device.id = index then { device with busy := false } else device)
    type
    (chip.devices.countP fun device => decide (device.type = type ∧ device.id = index))

/-- `free_accelerators`. -/
def freeAccelerators (a : Allocation) : Chip :=
  a.micIndices.foldl (freeAccelerator .mic) (a.gpuIndices.foldl (freeAccelerator .gpu) chip)

/-- `uncount_allocation`. -/
def uncountAllocation (a : Allocation) : Chip :=
  freeAccelerators
    (a.processors.foldl (freeCpuIndex a.coresOnly)
      { chip with
        availableThreads := chip.availableThreads + a.threads
        availableMemory := chip.availableMemory + a.memory })
    a

/-- `Chip::free_task`; the chip is completely free if no record is left. -/
def freeTask (jobid : String) : Chip :=
  let uncounted := (chip.allocations.filter fun a => a.jobid = jobid).foldl uncountAllocation chip
  let left := chip.allocations.filter fun a => a.jobid ≠ jobid
  { uncounted with
    allocations := left
    chipExclusive := if left = [] then false else chip.chipExclusive }

/-- `remove_last_allocation`. -/
def removeLastAllocation (jobid : String) : Chip :=
  match chip.allocations.getLast? with
  | some a =>
    if a.jobid = jobid then
      { chip.uncountAllocation a with allocations := chip.allocations.dropLast }
    else chip
  | none => chip

end Chip

end Torque.Numa
