import Torque.Numa.Socket
import Torque.Transition.Run

/-!
# Placing jobs on a machine

`place_job` places the requests of a job one after the other: requests for all
execution slots, requests for whole nodes, sockets or chips, and the others, for
which it looks for a socket that takes all tasks and puts the request off if
there is none.  Requests that were put off are placed afterwards, whole tasks
first, then tasks in parts.

A call that fails leaves what it has placed so far on the chips.  The number of
available sockets is left out, which is only counted, and so is what is noted
on the request about each task.
-/

namespace Torque.Numa

/-- `Machine`, with the allocations of its jobs. -/
structure Machine where
  sockets : List Socket
  allocations : List Allocation
  deriving DecidableEq, Repr

/-- All chips of the machine. -/
def Machine.chips (machine : Machine) : List Chip :=
  machine.sockets.flatMap Socket.chips

/-- The errors that `place_job` returns. -/
inductive PlaceError where
  | resourceUnavailable
  | invalidRequest
  | failed
  deriving DecidableEq, Repr

namespace Machine

/-- Sockets and the allocation that is being filled from them. -/
structure Site where
  sockets : List Socket
  alloc : Allocation

/-! ## All execution slots -/

/-- The loop over the sockets. -/
def placeAllOnSockets (r : Req) : List Socket → Allocation → Looking Site
  | [], taskAlloc => pure ⟨[], taskAlloc⟩
  | socket :: sockets, taskAlloc => do
      let done ← socket.placeAllExecutionSlots r taskAlloc
      let rest ← placeAllOnSockets r sockets done.2
      pure ⟨done.1 :: rest.sockets, rest.alloc⟩

/-- `Machine::place_all_execution_slots`. -/
def placeAllExecutionSlots (site : Site) (r : Req) : Looking Site := do
  let done ← placeAllOnSockets r site.sockets
    { jobid := site.alloc.jobid, coresOnly := r.useCores }
  pure ⟨done.sockets, site.alloc.add done.alloc⟩

section

variable (F : Type) [Floating F]

/-! ## Spreading -/

/-- Sockets over which a task is spread. -/
structure Spreading where
  placed : Bool
  sockets : List Socket
  taskAlloc : Allocation
  slotsRemainder : Int

/-- The loop of `Machine::spread_place` over the sockets. -/
def spreadOnSocket (slotsPer : Int) (chips : Bool) : List Socket → Allocation → Int → Spreading
  | [], taskAlloc, slotsRemainder => ⟨false, [], taskAlloc, slotsRemainder⟩
  | socket :: sockets, taskAlloc, slotsRemainder =>
    let share := socket.spreadPlace F taskAlloc slotsPer slotsRemainder chips
    if share.placed then ⟨true, share.socket :: sockets, share.taskAlloc, share.slotsRemainder⟩
    else
      let rest := spreadOnSocket slotsPer chips sockets share.taskAlloc share.slotsRemainder
      { rest with sockets := share.socket :: rest.sockets }

/-- The loop over the quantity of sockets or chips; it goes on once a share has
been placed. -/
def spreadQuantity (slotsPer : Int) (chips : Bool) : Nat → Spreading → Spreading
  | 0, s => s
  | quantity + 1, s =>
    let next := spreadOnSocket F slotsPer chips s.sockets s.taskAlloc s.slotsRemainder
    if s.placed || next.placed then
      spreadQuantity slotsPer chips quantity { next with placed := true }
    else next

/-- The loop over the tasks, with the number of tasks placed. -/
def spreadTasks (r : Req) (slotsPer : Int) (chips : Bool) (quantity : Nat) :
    Nat → Site → Int → Site × Nat
  | 0, site, _ => (site, 0)
  | tasks + 1, site, slotsRemainder =>
    let done := spreadQuantity F slotsPer chips quantity
      ⟨false, site.sockets, { jobid := site.alloc.jobid, placeType := r.placeType },
        slotsRemainder⟩
    if done.placed then
      let rest := spreadTasks r slotsPer chips quantity tasks
        ⟨done.sockets, site.alloc.add done.taskAlloc⟩ done.slotsRemainder
      (rest.1, rest.2 + 1)
    else
      spreadTasks r slotsPer chips quantity tasks ⟨done.sockets, site.alloc⟩ done.slotsRemainder

/-- What the check of the memory has counted: the memory of the sockets or chips
that are completely free, how many of them, and how many have to be taken. -/
structure MemoryCount where
  mem : Nat
  count : Int
  quantity : Int

/-- The loop of `Machine::spread_place` that counts memory. -/
def countMemory (memNeeded : Nat) (chips : Bool) : List Socket → MemoryCount → MemoryCount
  | [], m => m
  | socket :: sockets, m =>
    if m.mem < memNeeded then
      let free := socket.getMemoryForCompletelyFreeChips (memNeeded - m.mem)
      let next : MemoryCount :=
        if chips then ⟨m.mem + free.1, m.count + free.2, m.quantity⟩
        else if socket.isCompletelyFree then ⟨m.mem + socket.getMemory, m.count + 1, m.quantity⟩
        else m
      countMemory memNeeded chips sockets { next with quantity := max next.quantity next.count }
    else m

/-- How many sockets, or chips if the flag says so, a request is spread over;
`none` if they do not have the memory. -/
def spreadOver (sockets : List Socket) (r : Req) : Option (Int × Bool) :=
  let chips := decide (r.sockets = 0)
  let quantity := if r.sockets = 0 then r.numaNodes else r.sockets
  if quantity = 0 then some (sockets.length, false)
  else
    let counted := countMemory r.memory chips sockets ⟨0, 0, quantity⟩
    if counted.mem < r.memory then none else some (counted.quantity, chips)

/-- `Machine::spread_place`. -/
def spreadPlace (site : Site) (r : Req) (tasks : Int) : Site × Option PlaceError :=
  match spreadOver site.sockets r with
  | none => (site, some .resourceUnavailable)
  | some (quantity, chips) =>
    let done := spreadTasks F r (r.executionSlots.tdiv quantity) chips quantity.toNat
      tasks.toNat site (r.executionSlots.tmod quantity)
    (done.1, if done.2 = tasks then none else some .invalidRequest)

/-! ## Tasks in parts -/

/-- The loop of `place_remaining` that looks for a socket on which the task
fits. -/
def partOnOneSocket (remaining taskAlloc : Allocation) :
    List Socket → Looking (Option Site)
  | [] => pure none
  | socket :: sockets =>
    if socket.fitsOnSocket remaining then do
      let part ← socket.partiallyPlace F remaining taskAlloc
      pure (some ⟨{ socket with chips := part.chips } :: sockets, part.taskAlloc⟩)
    else do
      let rest ← partOnOneSocket remaining taskAlloc sockets
      pure (rest.map fun site => { site with sockets := socket :: site.sockets })

/-- Sockets, the allocation of the job, and the tasks still to be placed. -/
structure Remaining where
  site : Site
  tasks : Nat

/-- The first loop of `place_remaining`. -/
def placeWithinSockets (r : Req) : Nat → Site → Looking Remaining
  | 0, site => pure ⟨site, 0⟩
  | tasks + 1, site => do
      let found ← partOnOneSocket F (.ofReq r)
        { jobid := site.alloc.jobid, coresOnly := site.alloc.coresOnly } site.sockets
      match found with
      | some placed => placeWithinSockets r tasks ⟨placed.sockets, site.alloc.add placed.alloc⟩
      | none => pure ⟨site, tasks + 1⟩

/-- Sockets over which the parts of a task go. -/
structure Spanned where
  fit : Bool
  sockets : List Socket
  remaining : Allocation
  taskAlloc : Allocation

/-- The loops of `place_remaining` over the sockets for one task that spans
them. -/
def spanSockets : List Socket → Allocation → Allocation → Looking Spanned
  | [], remaining, taskAlloc => pure ⟨false, [], remaining, taskAlloc⟩
  | socket :: sockets, remaining, taskAlloc => do
      let part ← socket.partiallyPlace F remaining taskAlloc
      if part.fullyPlaced then
        pure ⟨true, { socket with chips := part.chips } :: sockets, part.remaining, part.taskAlloc⟩
      else do
        let rest ← spanSockets sockets part.remaining part.taskAlloc
        pure { rest with sockets := { socket with chips := part.chips } :: rest.sockets }

/-- What a task that spans sockets needs; an earlier one may have left its count
of processors on the allocation of the job. -/
def needed (r : Req) (master : Allocation) : Allocation :=
  if master.cpus ≠ 0 ∧ master.placeType = .legacy2 then { Allocation.ofReq r with cpus := master.cpus }
  else .ofReq r

/-- The allocation of the job takes in a task that fit. -/
def noteIf (fit : Bool) (master taskAlloc : Allocation) : Allocation :=
  if fit then master.add taskAlloc else master

/-- One round of the second loop of `place_remaining`, and whether the task
fit.  A legacy request that has used up the cores goes on with threads. -/
def placeAcross (r : Req) (site : Site) : Looking (Site × Bool) := do
  let first ← spanSockets F site.sockets (needed r site.alloc) { jobid := site.alloc.jobid }
  let master := noteIf first.fit site.alloc first.taskAlloc
  if master.placeType = .legacy ∧ 0 < first.remaining.cpus then do
    let second ← spanSockets F first.sockets { first.remaining with placeType := .legacy2 }
      first.taskAlloc
    pure (⟨second.sockets,
      noteIf second.fit { master with cpus := first.remaining.cpus } second.taskAlloc⟩,
      first.fit || second.fit)
  else pure (⟨first.sockets, master⟩, first.fit)

/-- The second loop of `place_remaining`. -/
def placeAcrossSockets (r : Req) : Nat → Site → Looking Remaining
  | 0, site => pure ⟨site, 0⟩
  | tasks + 1, site => do
      let done ← placeAcross F r site
      if done.2 then placeAcrossSockets r tasks done.1 else pure ⟨done.1, tasks + 1⟩

/-- `place_remaining`. -/
def placeRemaining (r : Req) (site : Site) (tasks : Nat) : Looking Remaining := do
  let within ← placeWithinSockets F r tasks site
  placeAcrossSockets F r within.tasks within.site

/-! ## Jobs -/

/-- `fit_tasks_within_sockets`, with the number of tasks that remain. -/
def fitTasksWithinSockets (r : Req) : List Socket → Allocation → Int → Looking (Site × Int)
  | [], jobAlloc, left => pure (⟨[], jobAlloc⟩, left)
  | socket :: sockets, jobAlloc, left =>
    if 0 < left then do
      let done ← socket.placeTask F r jobAlloc left
      let rest ← fitTasksWithinSockets r sockets done.master (left - done.placed)
      pure (⟨done.socket :: rest.1.sockets, rest.1.alloc⟩, rest.2)
    else pure (⟨socket :: sockets, jobAlloc⟩, left)

/-- The first socket that looks as if it took all tasks, with the number of
tasks placed there; `none` if there is no such socket. -/
def placeOnOneSocket (r : Req) (jobAlloc : Allocation) (tasks : Int) :
    List Socket → Looking (Option (Site × Int))
  | [] => pure none
  | socket :: sockets =>
    if Floating.le (Floating.ofInt tasks) (socket.howManyTasksFit F r jobAlloc.placeType) then do
      let done ← socket.placeTask F r jobAlloc tasks
      pure (some (⟨done.socket :: sockets, done.master⟩, done.placed))
    else do
      let rest ← placeOnOneSocket r jobAlloc tasks sockets
      pure (rest.map fun found => (⟨socket :: found.1.sockets, found.1.alloc⟩, found.2))

/-- What has been done for a request: it may have been placed, put off, or ended
the call. -/
structure Tried where
  site : Site
  putOff : Bool
  rc : Option PlaceError

/-- One round of the first loop of `place_job`. -/
def tryReq (r : Req) (site : Site) : Looking Tried :=
  let jobAlloc := { site.alloc with placeType := r.placeType }
  if r.numTasksForHost = 0 then pure ⟨site, false, none⟩
  else if r.executionSlots = allExecutionSlots then do
    let done ← placeAllExecutionSlots ⟨site.sockets, jobAlloc⟩ r
    pure ⟨done, false, none⟩
  else if r.placeType.practical = .chip then
    let done := spreadPlace F ⟨site.sockets, jobAlloc⟩ r r.numTasksForHost
    pure ⟨done.1, false, done.2⟩
  else do
    let found ← placeOnOneSocket F r jobAlloc r.numTasksForHost site.sockets
    match found with
    | some (placed, count) => pure ⟨placed, false, if count = 0 then some .failed else none⟩
    | none => pure ⟨⟨site.sockets, jobAlloc⟩, true, none⟩

/-- The first loop of `place_job`. -/
structure FirstPass where
  site : Site
  putOff : List Req
  rc : Option PlaceError

/-- The first pass over the requests of a job. -/
def tryReqs : List Req → Site → Looking FirstPass
  | [], site => pure ⟨site, [], none⟩
  | r :: reqs, site => do
      let tried ← tryReq F r site
      if tried.rc ≠ none then pure ⟨tried.site, [], tried.rc⟩
      else do
        let rest ← tryReqs reqs tried.site
        pure { rest with putOff := if tried.putOff then r :: rest.putOff else rest.putOff }

/-- One round of the second loop of `place_job`, and whether all tasks were
placed. -/
def placePutOff (r : Req) (site : Site) : Looking (Site × Bool) := do
  let fitted ← fitTasksWithinSockets F r site.sockets { site.alloc with placeType := r.placeType }
    r.numTasksForHost
  if 0 < fitted.2 then do
    let done ← placeRemaining F r fitted.1 fitted.2.toNat
    pure (done.site, decide (done.tasks = 0))
  else pure (fitted.1, true)

/-- The second loop of `place_job`. -/
def placeAllPutOff : List Req → Site → Looking (Site × Bool)
  | [], site => pure (site, true)
  | r :: reqs, site => do
      let done ← placePutOff F r site
      let rest ← placeAllPutOff reqs done.1
      pure (rest.1, done.2 && rest.2)

/-- `place_job`, with what it returns. -/
def placeJob (machine : Machine) (jobid : String) (reqs : List Req) :
    Looking (Machine × Option PlaceError) := do
  let tried ← tryReqs F reqs ⟨machine.sockets, .ofJob jobid⟩
  if tried.rc ≠ none then pure ({ machine with sockets := tried.site.sockets }, tried.rc)
  else do
    let done ← placeAllPutOff F tried.putOff tried.site
    pure (⟨done.1.sockets, machine.allocations ++ [done.1.alloc]⟩,
      if done.2 then none else some .failed)

end

/-- `free_job_allocation`. -/
def freeJobAllocation (machine : Machine) (jobid : String) : Machine :=
  ⟨machine.sockets.map fun socket => socket.freeTask jobid,
    machine.allocations.filter fun a => a.jobid ≠ jobid⟩

end Machine

/-! ## Runs -/

/-- A call on the machine. -/
inductive Event where
  | placeJob (jobid : String) (reqs : List Req)
  | freeJobAllocation (jobid : String)

/-- The machine after a call. -/
def Machine.step (F : Type) [Floating F] (machine : Machine) : Event → Machine
  | .placeJob jobid reqs => (machine.placeJob F jobid reqs).value.1
  | .freeJobAllocation jobid => machine.freeJobAllocation jobid

end Torque.Numa
