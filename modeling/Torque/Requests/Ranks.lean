import Mathlib.Data.List.FinRange
import Mathlib.Data.List.Flatten
import Mathlib.Data.List.Nodup

/-!
# The ranks of a job's processes

Each process of a job has a rank, and belongs to a task of one of the reqs.
`get_req_and_task_index` finds the task by counting the processors of the allocations that the
tasks have got, and not the execution slots that they asked for.
-/

namespace Torque.Requests

open List Function

/-- What the ranks depend on in an `allocation`. -/
structure Allocation where
  cpuIndices : List Int
  hostname : List Char

/-- What they depend on in a `req`. -/
structure Req where
  taskCount : Nat
  /-- `execution_slots`, -1 for all slots of a node -/
  executionSlots : Int
  taskAllocations : List Allocation

/-- A task of a req, by the indices of both. -/
structure Task where
  index : Nat × Nat
  executionSlots : Int
  allocation : Option Allocation

/-- The tasks of all reqs in their order, each with what `get_task_allocation` finds for it. -/
def tasks (reqs : List Req) : List Task :=
  (finRange reqs.length).flatMap fun req : Fin _ => (range reqs[req].taskCount).map fun task =>
    ⟨(req, task), reqs[req].executionSlots, reqs[req].taskAllocations[task]?⟩

/-- The loop over the processors of a task: nothing at the rank, or how many are counted. -/
def cpuLoop (rank : Int) : Nat → Nat → Option Nat
  | 0, tasksCounted => some tasksCounted
  | cpus + 1, tasksCounted =>
    if tasksCounted = rank then none else cpuLoop rank cpus (tasksCounted + 1)

/-- The loops over the reqs and their tasks; only some allocations count. -/
def taskLoop (counts : Allocation → Bool) (rank : Int) : List Task → Nat → Option (Nat × Nat)
  | [], _ => none
  | task :: tasks, tasksCounted =>
    match task.allocation.filter counts with
    | none => taskLoop counts rank tasks tasksCounted
    | some al =>
      match cpuLoop rank al.cpuIndices.length tasksCounted with
      | none => some task.index
      | some tasksCounted => taskLoop counts rank tasks tasksCounted

/-- `get_req_and_task_index`, or nothing for `PBSE_NO_PROCESS_RANK`. -/
def getReqAndTaskIndex (reqs : List Req) (rank : Int) : Option (Nat × Nat) :=
  taskLoop (fun _ => true) rank (tasks reqs) 0

/-- `get_req_and_task_index_from_local_rank`. -/
def getReqAndTaskIndexFromLocalRank (reqs : List Req) (host : List Char) (rank : Int) :
    Option (Nat × Nat) :=
  taskLoop (·.hostname = host) rank (tasks reqs) 0

/-! ## Positions -/

/-- The positions for processes, in their order: a task and one of so many places. -/
def positions (places : Task → Nat) (tasks : List Task) : List ((Nat × Nat) × Nat) :=
  tasks.flatMap fun task => (range (places task)).map (task.index, ·)

/-- One place for each execution slot. -/
def Task.slots (task : Task) : Nat :=
  task.executionSlots.toNat

/-- The processors of a task, if its allocation counts. -/
def Task.cpus (counts : Allocation → Bool) (task : Task) : Nat :=
  (task.allocation.filter counts).elim 0 (·.cpuIndices.length)

/-- The task is on the host. -/
def Task.onHost (host : List Char) (task : Task) : Bool :=
  task.allocation.any (·.hostname = host)

/-- The order of positions: by req, task and place. -/
def Before (first second : (Nat × Nat) × Nat) : Prop :=
  first.1.1 < second.1.1 ∨ first.1.1 = second.1.1 ∧
    (first.1.2 < second.1.2 ∨ first.1.2 = second.1.2 ∧ first.2 < second.2)

/-- The ranks are the numbers of the positions, and there are no others. -/
def Numbers (found : Int → Option (Nat × Nat)) (positions : List ((Nat × Nat) × Nat)) : Prop :=
  ∀ rank, found rank = if rank < 0 then none else positions[rank.toNat]?.map Prod.fst

variable {counts : Allocation → Bool} {list : List Task}

theorem cpuLoop_of_neg {rank : Int} (negative : rank < 0) (cpus counted : Nat) :
    cpuLoop rank cpus counted = some (counted + cpus) := by
  induction cpus generalizing counted with
  | zero => rfl
  | succ cpus ih => rw [cpuLoop, if_neg (by omega), ih, Nat.add_right_comm, Nat.add_assoc]

theorem cpuLoop_eq (cpus k counted : Nat) :
    cpuLoop (counted + k : Nat) cpus counted =
      if k < cpus then none else some (counted + cpus) := by
  induction cpus generalizing k counted with
  | zero => rfl
  | succ cpus ih =>
    rw [cpuLoop]
    cases k with
    | zero => simp
    | succ k =>
      rw [if_neg (by omega), show counted + (k + 1) = counted + 1 + k by omega, ih]
      simp [Nat.add_right_comm, Nat.add_assoc]

theorem taskLoop_of_neg {rank : Int} (negative : rank < 0) (counted : Nat) :
    taskLoop counts rank list counted = none := by
  induction list generalizing counted with
  | nil => rfl
  | cons task list ih =>
    rw [taskLoop]
    cases task.allocation.filter counts with
    | none => exact ih counted
    | some al =>
      dsimp only
      rw [cpuLoop_of_neg negative]
      exact ih _

/-- The loops go through the processors of the tasks. -/
theorem taskLoop_eq (k counted : Nat) :
    taskLoop counts (counted + k : Nat) list counted =
      (positions (Task.cpus counts) list)[k]?.map Prod.fst := by
  induction list generalizing k counted with
  | nil => rfl
  | cons task list ih =>
    rw [positions, flatMap_cons, taskLoop, Task.cpus]
    cases task.allocation.filter counts with
    | none => exact ih k counted
    | some al =>
      dsimp only [Option.elim_some]
      rw [cpuLoop_eq]
      by_cases here : k < al.cpuIndices.length
      · simp [here, getElem?_append_left]
      · obtain ⟨k, rfl⟩ := Nat.exists_eq_add_of_le (not_lt.1 here)
        rw [if_neg here, getElem?_append_right (by simp), ← Nat.add_assoc, length_map, length_range,
          Nat.add_sub_cancel_left]
        exact ih k _

theorem numbers_taskLoop :
    Numbers (fun rank => taskLoop counts rank list 0) (positions (Task.cpus counts) list) := by
  intro rank
  split
  · next negative => exact taskLoop_of_neg negative 0
  · next natural =>
    obtain ⟨k, rfl⟩ := Int.eq_ofNat_of_zero_le (not_lt.mp natural)
    simpa using taskLoop_eq k 0

/-- On a host the tasks of the host count. -/
theorem positions_onHost (host : List Char) :
    positions (Task.cpus (·.hostname = host)) list =
      positions (Task.cpus fun _ => true) (list.filter (·.onHost host)) := by
  induction list with
  | nil => rfl
  | cons task list ih =>
    rw [positions, flatMap_cons, ← positions, ih, filter_cons]
    rcases task with ⟨index, executionSlots, _ | al⟩
    · rfl
    · by_cases here : al.hostname = host <;>
        simp [here, Task.cpus, Task.onHost, Option.filter, positions]

/-- The positions stand in their order, so that none stands twice. -/
theorem positions_sorted (places : Task → Nat) (reqs : List Req) :
    (positions places (tasks reqs)).Pairwise Before := by
  have inTask : ∀ task, ((range (places task)).map (task.index, ·)).Pairwise Before := fun task =>
    pairwise_map.mpr (pairwise_lt_range.imp fun less => .inr ⟨rfl, .inr ⟨rfl, less⟩⟩)
  refine pairwise_flatMap.mpr ⟨fun task _ => inTask task, pairwise_flatMap.mpr ⟨?_, ?_⟩⟩
  · intro req _
    refine pairwise_map.mpr (pairwise_lt_range.imp fun less => ?_)
    simp only [mem_map]
    rintro _ ⟨_, -, rfl⟩ _ ⟨_, -, rfl⟩
    exact .inr ⟨rfl, .inl less⟩
  · refine (pairwise_lt_finRange _).imp fun less => ?_
    simp only [mem_map]
    rintro _ ⟨_, -, rfl⟩ _ ⟨_, -, rfl⟩ _ ⟨_, -, rfl⟩ _ ⟨_, -, rfl⟩
    exact .inl less

/-- The ranks number the processors of all tasks, in the order of reqs, tasks and processors, and
those on a host the processors of the tasks there. -/
theorem ranks_number_processors (reqs : List Req) :
    let cpus := Task.cpus fun _ => true
    (positions cpus (tasks reqs)).Pairwise Before ∧
      Numbers (getReqAndTaskIndex reqs) (positions cpus (tasks reqs)) ∧
      ∀ host, Numbers (getReqAndTaskIndexFromLocalRank reqs host)
        (positions cpus ((tasks reqs).filter (·.onHost host))) := by
  refine ⟨positions_sorted _ reqs, numbers_taskLoop, fun host => ?_⟩
  rw [← positions_onHost]
  exact numbers_taskLoop

/-- A task with two processors and one slot has the ranks 0 and 1. -/
theorem ranks_count_processors :
    ¬ ∀ reqs, Numbers (getReqAndTaskIndex reqs) (positions Task.slots (tasks reqs)) := by
  intro always
  have second := always [⟨1, 1, [⟨[0, 1], []⟩]⟩] 1
  exact absurd second (by decide)

end Torque.Requests
