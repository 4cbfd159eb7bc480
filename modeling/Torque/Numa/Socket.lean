import Torque.Numa.Task

/-!
# Placing tasks on a socket

A socket tries the ways of placing tasks in turn: all on one chip, then chip by
chip as many as each takes, then tasks that span its chips.  A task that spans
chips and cannot be finished is taken back from every chip that got a part.

The socket's own counts of cores, threads and memory are left out: they are
written and never read when a job is placed or freed.  A socket has at least one
chip.
-/

namespace Torque.Numa

/-- `Socket`. -/
structure Socket where
  chips : List Chip
  socketExclusive : Bool
  deriving DecidableEq, Repr

namespace Socket

section

variable (socket : Socket)

/-- `is_available`. -/
def isAvailable : Bool :=
  !socket.socketExclusive

/-- `is_completely_free`. -/
def isCompletelyFree : Bool :=
  socket.chips.all Chip.isCompletelyFree

/-- `getMemory`. -/
def getMemory : Nat :=
  (socket.chips.map Chip.memory).sum

/-- The loop of `get_memory_for_completely_free_chips`, with the number of chips
it counted. -/
def memoryOfFreeChips (memRequired : Nat) : List Chip → Nat × Nat → Nat × Nat
  | [], state => state
  | chip :: chips, (mem, count) =>
    if mem < memRequired then
      memoryOfFreeChips memRequired chips
        (if chip.isCompletelyFree then (mem + chip.memory, count + 1) else (mem, count))
    else (mem, count)

/-- `get_memory_for_completely_free_chips`. -/
def getMemoryForCompletelyFreeChips (memRequired : Nat) : Nat × Nat :=
  memoryOfFreeChips memRequired socket.chips (0, 0)

/-- `get_available_gpus`. -/
def getAvailableGpus : Int :=
  (socket.chips.map Chip.getAvailableGpus).sum

/-- `get_free_cores`. -/
def getFreeCores : Int :=
  if socket.socketExclusive then 0 else (socket.chips.map Chip.freeCoreCount).sum

/-- `getAvailableThreads`. -/
def getAvailableThreads : Int :=
  if socket.socketExclusive then 0 else (socket.chips.map Chip.getAvailableThreads).sum

/-- `getAvailableMemory`. -/
def getAvailableMemory : Nat :=
  if socket.socketExclusive then 0 else (socket.chips.map Chip.availableMemory).sum

/-- `fits_on_socket`. -/
def fitsOnSocket (remaining : Allocation) : Bool :=
  let maxCpus := if 0 < remaining.placeCpus then remaining.placeCpus else remaining.cpus
  decide (remaining.memory ≤ socket.getAvailableMemory ∧
    remaining.gpus ≤ socket.getAvailableGpus ∧
    ((remaining.coresOnly ∧ maxCpus ≤ socket.getFreeCores) ∨
      if remaining.placeType = .legacy then maxCpus ≤ socket.getFreeCores
      else remaining.coresOnly = false ∧ maxCpus ≤ socket.getAvailableThreads))

end

section

variable (F : Type) [Floating F]

/-- `Socket::how_many_tasks_fit`. -/
def howManyTasksFit (socket : Socket) (r : Req) (placeType : PlaceType) : F :=
  if socket.socketExclusive = false ∧ (placeType ≠ .socket ∨ socket.isAvailable) then
    if 1 < r.numaNodes then
      Floating.div
        (socket.chips.foldl
          (fun tasks chip =>
            if Floating.le (Floating.ofInt 1) (chip.howManyTasksFit r placeType : F) then
              Floating.add tasks (Floating.ofInt 1)
            else tasks)
          (Floating.ofInt 0))
        (Floating.ofInt r.numaNodes)
    else
      let tasks := socket.chips.foldl
        (fun tasks chip => Floating.add tasks (chip.howManyTasksFit r placeType)) (Floating.ofInt 0)
      if Floating.lt (Floating.ofInt 1) tasks ∧ r.placementStr = "socket".toList then
        Floating.ofInt 1
      else tasks
  else Floating.ofInt 0

/-! ## Whole tasks -/

/-- Chips, the allocation that is being filled from them, and how many tasks are
still to be placed. -/
structure Filling where
  chips : List Chip
  alloc : Allocation
  toPlace : Int

/-- Chips that were passed over are put back in front. -/
def Filling.behind (chip : Chip) (f : Filling) : Filling :=
  { f with chips := chip :: f.chips }

/-- The first loop of `Socket::place_task`: chips that look as if they took all
`toPlace` tasks. -/
def placeOnOneChip (r : Req) (toPlace : Int) : List Chip → Allocation → Int → Looking Filling
  | [], a, left => pure ⟨[], a, left⟩
  | chip :: chips, a, left =>
    if 0 < left then
      if Floating.le (Floating.ofInt toPlace) (chip.howManyTasksFit r a.placeType : F) then do
        let done ← chip.placeTask F r a toPlace
        if done.placed ≠ 0 ∧ a.placeType = .socket then
          pure ⟨done.chip :: chips, done.master, left - done.placed⟩
        else do
          let rest ← placeOnOneChip r toPlace chips done.master (left - done.placed)
          pure (rest.behind done.chip)
      else do
        let rest ← placeOnOneChip r toPlace chips a left
        pure (rest.behind chip)
    else pure ⟨chip :: chips, a, left⟩

/-- The second loop of `Socket::place_task`: what each chip takes. -/
def placeChipByChip (r : Req) : List Chip → Allocation → Int → Looking Filling
  | [], a, left => pure ⟨[], a, left⟩
  | chip :: chips, a, left =>
    if 0 < left then do
      let done ← chip.placeTask F r a left
      if done.placed ≠ 0 ∧ a.placeType = .socket then
        pure ⟨done.chip :: chips, done.master, left - done.placed⟩
      else do
        let rest ← placeChipByChip r chips done.master (left - done.placed)
        pure (rest.behind done.chip)
    else pure ⟨chip :: chips, a, left⟩

/-! ## Tasks that span chips -/

/-- Chips with a mark on those that got a part of a task, what remains of the
task, and its allocation. -/
structure Spanning where
  chips : List (Chip × Bool)
  remaining : Allocation
  taskAlloc : Allocation

/-- The loop of `Socket::place_task` over the chips for one task. -/
def spanChips : List Chip → Allocation → Allocation → Looking Spanning
  | [], remaining, taskAlloc => pure ⟨[], remaining, taskAlloc⟩
  | chip :: chips, remaining, taskAlloc =>
    if remaining.fullyPlaced then
      pure ⟨(chip :: chips).map fun chip => (chip, false), remaining, taskAlloc⟩
    else do
      let part ← chip.partiallyPlaceTask F remaining taskAlloc
      let rest ← spanChips chips part.remaining part.taskAlloc
      pure { rest with chips := (part.chip, part.placedSomething) :: rest.chips }

/-- Take the last allocation of the job from the marked chips. -/
def takeBack (jobid : String) (chips : List (Chip × Bool)) : List Chip :=
  chips.map fun entry => if entry.2 then entry.1.removeLastAllocation jobid else entry.1

/-- The last loop of `Socket::place_task`. -/
def placeSpanning (r : Req) (master : Allocation) :
    Nat → List Chip → Allocation → Int → Looking Filling
  | 0, chips, a, left => pure ⟨chips, a, left⟩
  | rounds + 1, chips, a, left =>
    if 0 < left then do
      let span ← spanChips F chips (.ofReq r)
        { jobid := master.jobid, coresOnly := master.coresOnly }
      if span.remaining.fullyPlaced then
        placeSpanning r master rounds (span.chips.map Prod.fst) (a.add span.taskAlloc) (left - 1)
      else if span.remaining.partiallyPlaced r then
        pure ⟨takeBack master.jobid span.chips, a, left⟩
      else pure ⟨span.chips.map Prod.fst, a, left⟩
    else pure ⟨chips, a, left⟩

/-- What `Socket::place_task` does to the chips. -/
def fillChips (r : Req) (master : Allocation) (chips : List Chip) (toPlace : Int) :
    Looking Filling := do
  let one ← placeOnOneChip F r toPlace chips
    { jobid := master.jobid, placeType := master.placeType } toPlace
  if 0 < one.toPlace then do
    let each ← placeChipByChip F r one.chips one.alloc one.toPlace
    if 1 < chips.length then
      placeSpanning F r master each.toPlace.toNat each.chips each.alloc each.toPlace
    else pure each
  else pure one

/-- What a function that places tasks on a socket leaves behind. -/
structure PlacedTasks where
  socket : Socket
  master : Allocation
  placed : Int

/-- `Socket::place_task`. -/
def placeTask (socket : Socket) (r : Req) (master : Allocation) (toPlace : Int) :
    Looking PlacedTasks :=
  if (master.placeType ≠ .socket ∨ socket.isAvailable) ∧ socket.socketExclusive = false then do
    let done ← fillChips F r master socket.chips toPlace
    if toPlace ≠ done.toPlace then
      pure
        { socket := ⟨done.chips, decide (master.placeType = .socket)⟩
          master := master.add done.alloc
          placed := toPlace - done.toPlace }
    else pure ⟨⟨done.chips, false⟩, master, toPlace - done.toPlace⟩
  else pure ⟨socket, master, 0⟩

/-! ## Parts of a task -/

/-- What `partially_place` leaves behind. -/
structure PlacedPart where
  fullyPlaced : Bool
  chips : List Chip
  remaining : Allocation
  taskAlloc : Allocation

/-- The loop of `partially_place`. -/
def partiallyPlaceChips : List Chip → Allocation → Allocation → Looking PlacedPart
  | [], remaining, taskAlloc => pure ⟨false, [], remaining, taskAlloc⟩
  | chip :: chips, remaining, taskAlloc => do
      let part ← chip.partiallyPlaceTask F remaining taskAlloc
      if part.remaining.fullyPlaced then
        pure ⟨true, part.chip :: chips, part.remaining, part.taskAlloc⟩
      else do
        let rest ← partiallyPlaceChips chips part.remaining part.taskAlloc
        pure { rest with chips := part.chip :: rest.chips }

/-- `partially_place`. -/
def partiallyPlace (socket : Socket) (remaining taskAlloc : Allocation) : Looking PlacedPart :=
  partiallyPlaceChips F socket.chips remaining taskAlloc

/-! ## Spreading a task -/

/-- Where spreading is: the chips, the allocation of the task, and the execution
slots that do not go into an even share. -/
structure Spreading where
  placed : Bool
  chips : List Chip
  taskAlloc : Allocation
  slotsRemainder : Int

/-- The inner loop of `Socket::spread_place`: the first chip that takes a
share. -/
def spreadOnChip (slots : Int) : List Chip → Allocation → Int → Spreading
  | [], taskAlloc, slotsRemainder => ⟨false, [], taskAlloc, slotsRemainder⟩
  | chip :: chips, taskAlloc, slotsRemainder =>
    let share := chip.spreadPlace F taskAlloc slots slotsRemainder
    if share.taskPlaced then ⟨true, share.chip :: chips, share.taskAlloc, share.slotsRemainder⟩
    else
      let rest := spreadOnChip slots chips share.taskAlloc share.slotsRemainder
      { rest with chips := share.chip :: rest.chips }

/-- The outer loop of `Socket::spread_place`. -/
def spreadOnChips (perNuma : Int) : Nat → Int → Spreading → Spreading
  | 0, _, s => s
  | rounds + 1, perNumaRemainder, s =>
    let next := spreadOnChip F (if 0 < perNumaRemainder then perNuma + 1 else perNuma)
      s.chips s.taskAlloc s.slotsRemainder
    spreadOnChips perNuma rounds
      (if 0 < perNumaRemainder ∧ next.placed then perNumaRemainder - 1 else perNumaRemainder)
      { next with placed := s.placed || next.placed }

/-- What `Socket::spread_place` leaves behind. -/
structure PlacedSpread where
  placed : Bool
  socket : Socket
  taskAlloc : Allocation
  slotsRemainder : Int

/-- `Socket::spread_place`; `chip` says that one chip is asked for, not the
socket. -/
def spreadPlace (socket : Socket) (taskAlloc : Allocation) (slotsPer slotsRemainder : Int)
    (chip : Bool) : PlacedSpread :=
  if socket.isCompletelyFree ∨ chip then
    let done :=
      if chip then
        spreadOnChips F slotsPer 1 0 ⟨false, socket.chips, taskAlloc, slotsRemainder⟩
      else
        spreadOnChips F (slotsPer.tdiv socket.chips.length) socket.chips.length
          (slotsPer.tmod socket.chips.length) ⟨false, socket.chips, taskAlloc, slotsRemainder⟩
    { placed := done.placed
      socket := ⟨done.chips, if chip then socket.socketExclusive else true⟩
      taskAlloc := done.taskAlloc
      slotsRemainder := done.slotsRemainder }
  else ⟨false, socket, taskAlloc, slotsRemainder⟩

end

/-! ## All execution slots and freeing -/

/-- The loop over the chips. -/
def placeAllOnChips (r : Req) : List Chip → Allocation → Looking (List Chip × Allocation)
  | [], taskAlloc => pure ([], taskAlloc)
  | chip :: chips, taskAlloc => do
      let done ← chip.placeAllExecutionSlots r taskAlloc
      let rest ← placeAllOnChips r chips done.2
      pure (done.1 :: rest.1, rest.2)

/-- `Socket::place_all_execution_slots`. -/
def placeAllExecutionSlots (socket : Socket) (r : Req) (taskAlloc : Allocation) :
    Looking (Socket × Allocation) := do
  let done ← placeAllOnChips r socket.chips taskAlloc
  pure (⟨done.1, true⟩, done.2)

/-- `Socket::free_task`. -/
def freeTask (socket : Socket) (jobid : String) : Socket :=
  let chips := socket.chips.map fun chip => chip.freeTask jobid
  ⟨chips, if chips.all Chip.isCompletelyFree then false else socket.socketExclusive⟩

end Socket

end Torque.Numa
