import Mathlib.Data.Rat.Floor

/-!
# Requests and allocations

A request (`req`) says what each of its tasks needs and how it wants to be
placed.  An allocation is what has been set aside for a job, and also serves as
the note of what a task still needs while it is spread over several places.

Left out are the parts of an allocation that describe where a task ran and what
it used (`mem_indices`, the host name, the usage statistics): no decision is
taken on them.  How many tasks of a request belong on the host at hand is read
off the host list of the job, and is a number here.
-/

namespace Torque.Numa

/-- Floating point numbers, as far as placing uses them: ratios of small
integers, compared and rounded.  Nothing depends on their precision, and
`round` is `floor(x + 0.5)`. -/
class Floating (F : Type) where
  ofInt : Int → F
  add : F → F → F
  div : F → F → F
  lt : F → F → Bool
  le : F → F → Bool
  round : F → Int

instance : Floating ℚ where
  ofInt n := n
  add x y := x + y
  div x y := x / y
  lt x y := decide (x < y)
  le x y := decide (x ≤ y)
  round x := (x + 1 / 2).floor

/-- The `exclusive_*` constants. -/
inductive PlaceType where
  | none
  | node
  | socket
  | chip
  | core
  | thread
  | legacy
  | legacy2
  deriving DecidableEq, Repr

/-- `allocation::set_place_type`.  `legacy2` comes before `legacy`, of which it
would also be a match. -/
def setPlaceType (placement : List Char) : PlaceType :=
  if placement = "node".toList then .node
  else if "socket".toList.isPrefixOf placement then .socket
  else if "numanode".toList.isPrefixOf placement then .chip
  else if "core".toList.isPrefixOf placement then .core
  else if "thread".toList.isPrefixOf placement then .thread
  else if "legacy2".toList.isPrefixOf placement then .legacy2
  else if "legacy".toList.isPrefixOf placement then .legacy
  else .none

/-- `place=node`, `place=socket` and `place=numanode` each give a task chips of
its own. -/
def PlaceType.practical : PlaceType → PlaceType
  | .socket => .chip
  | .node => .chip
  | other => other

/-- The part of a `req` that placing it on one host looks at. -/
structure Req where
  executionSlots : Int
  memory : Nat
  gpus : Int
  mics : Int
  /-- The thread usage is `use_cores`. -/
  useCores : Bool
  placementStr : List Char
  placeCores : Int
  placeThreads : Int
  sockets : Int
  numaNodes : Int
  /-- What `get_num_tasks_for_host` says about the host. -/
  numTasksForHost : Int
  deriving DecidableEq, Repr

/-- `ALL_EXECUTION_SLOTS`. -/
def allExecutionSlots : Int := -1

variable (r : Req)

/-- How the task is to be placed. -/
def Req.placeType : PlaceType :=
  setPlaceType r.placementStr

/-- The processors a task has to have set aside: `place=core=x` and
`place=thread=x` may ask for more than it will use. -/
def Req.maxCpus : Int :=
  if 0 < r.placeCores then r.placeCores
  else if 0 < r.placeThreads then r.placeThreads
  else r.executionSlots

/-- `allocation`: what a job has got, or is still to get. -/
structure Allocation where
  jobid : String := ""
  cpuPlaceIndices : List Int := []
  cpuIndices : List Int := []
  gpuIndices : List Int := []
  micIndices : List Int := []
  memory : Nat := 0
  cpus : Int := 0
  cores : Int := 0
  threads : Int := 0
  placeCpus : Int := 0
  placeType : PlaceType := .none
  coresOnly : Bool := false
  gpus : Int := 0
  mics : Int := 0
  deriving DecidableEq, Repr

namespace Allocation

/-- `allocation(const char *jid)`. -/
def ofJob (jobid : String) : Allocation :=
  { jobid := jobid }

/-- `allocation(const req &r)`. -/
def ofReq : Allocation where
  cpus := r.executionSlots
  memory := r.memory
  gpus := r.gpus
  mics := r.mics
  coresOnly := r.useCores
  placeType := r.placeType
  placeCpus :=
    if 0 < r.placeCores then r.placeCores else if 0 < r.placeThreads then r.placeThreads else 0

/-- `add_allocation`.  How the two were to be placed plays no part. -/
def add (a other : Allocation) : Allocation :=
  { a with
    cpuIndices := a.cpuIndices ++ other.cpuIndices
    cpuPlaceIndices := a.cpuPlaceIndices ++ other.cpuPlaceIndices
    cpus := a.cpus + other.cpus
    cores := a.cores + other.cores
    threads := a.threads + other.threads
    placeCpus := a.placeCpus + other.placeCpus
    memory := a.memory + other.memory
    gpuIndices := a.gpuIndices ++ other.gpuIndices
    micIndices := a.micIndices ++ other.micIndices }

/-- `fully_placed`. -/
def fullyPlaced (a : Allocation) : Bool :=
  decide (a.cpus = 0 ∧ a.memory = 0 ∧ a.mics = 0 ∧ a.gpus = 0 ∧ a.placeCpus = 0)

/-- `partially_placed`, for an allocation that started as `ofReq r`. -/
def partiallyPlaced (a : Allocation) (r : Req) : Bool :=
  decide (a.cpus ≠ r.executionSlots ∨ a.memory ≠ r.memory ∨ a.gpus ≠ r.gpus ∨ a.mics ≠ r.mics ∨
    (0 < r.placeCores ∧ a.placeCpus ≠ r.placeCores) ∨
    (0 < r.placeThreads ∧ a.placeCpus ≠ r.placeThreads))

end Allocation

/-! ## What an allocation names -/

/-- What a job can hold of a machine. -/
inductive Resource where
  | unit (index : Int)
  | gpu (id : Int)
  | mic (id : Int)
  deriving DecidableEq, Repr

namespace Allocation

/-- The processors an allocation lists, those it uses and those only set aside. -/
def processors (a : Allocation) : List Int :=
  a.cpuIndices ++ a.cpuPlaceIndices

/-- The processors, GPUs and MICs an allocation lists. -/
def resources (a : Allocation) : List Resource :=
  a.processors.map .unit ++ a.gpuIndices.map .gpu ++ a.micIndices.map .mic

theorem count_resources_add (a other : Allocation) (resource : Resource) :
    (a.add other).resources.count resource =
      a.resources.count resource + other.resources.count resource := by
  simp only [resources, processors, add, List.map_append, List.count_append]
  omega

end Allocation

end Torque.Numa
