import Mathlib.Data.List.Sort
import Torque.Transition.Run

/-!
# Timed tasks

The server keeps the tasks that wait for their time in a list, which is ordered by the time.  Its
main loop takes the tasks that are due from the front and hands them to the thread pool.  A task
goes back into the list if the pool is busy.
-/

namespace Torque.Server

open List Transition

/-- The `WORK_*` types. -/
inductive WorkType
  | immed | timed | deferredChild | deferredReply | deferredLocal | deferredOther | deferredCmp
  deriving DecidableEq

/-- The part of a `work_task` that the list depends on, and the address of the task. -/
structure WorkTask where
  address : Nat
  wtEvent : Int
  wtType : WorkType
  /-- `wt_func` is not null. -/
  wtFunc : Bool
  deriving DecidableEq

/-- `timed_task`; its time is that of the event of its task. -/
structure TimedTask where
  wt : WorkTask
  taskTime : Int
  stamped : taskTime = wt.wtEvent

/-- The counts of `request_pool`. -/
structure ThreadPool where
  tpMaxThreads : Int
  tpNthreads : Int
  tpIdleThreads : Int

/-- `can_dispatch_task`. -/
def canDispatchTask (pool : ThreadPool) : Bool :=
  pool.tpMaxThreads < 10 * (pool.tpIdleThreads + (pool.tpMaxThreads - pool.tpNthreads))

/-- The tasks: all of them, the list, those that were popped and are not yet dispatched, and those
that were dispatched; and the time of the last pop. -/
structure TaskState where
  allocated : List WorkTask
  taskListTimed : List TimedTask
  popped : List WorkTask
  dispatched : List WorkTask
  timeNow : Int

/-- The tasks that were handed to `task_pool`. -/
def TaskState.taskPool (state : TaskState) : List WorkTask :=
  state.dispatched.filter fun task => task.wtType = .immed ∨ task.wtFunc

/-- The order of the list. -/
def Before : TimedTask → TimedTask → Prop :=
  Order.Preimage TimedTask.taskTime (· ≤ ·)
deriving DecidableRel, IsTrans, Std.Total

/-- `insert_timed_task`: the task is put before the first that is not earlier. -/
def insertTimedTask (wt : WorkTask) (list : List TimedTask) : List TimedTask :=
  list.orderedInsert Before ⟨wt, wt.wtEvent, rfl⟩

/-- `pop_timed_task`. -/
def popTimedTask (timeNow : Int) : List TimedTask → Option WorkTask × List TimedTask
  | [] => (none, [])
  | it :: list => if it.taskTime ≤ timeNow then (some it.wt, list) else (none, it :: list)

/-- `set_task`. -/
def setTask (state : TaskState) (type : WorkType) (eventId : Int) (func : Bool) : TaskState :=
  let pnew := ⟨state.allocated.length, eventId, type, func⟩
  let allocated := state.allocated ++ [pnew]
  if type = .immed then { state with allocated, dispatched := pnew :: state.dispatched }
  else { state with allocated, taskListTimed := insertTimedTask pnew state.taskListTimed }

/-- `dispatch_timed_task`; its code tells whether the pool was busy. -/
def dispatchTimedTask (state : TaskState) (ptask : WorkTask) (pool : ThreadPool) :
    Bool × TaskState :=
  let popped := state.popped.erase ptask
  if canDispatchTask pool then
    (false, { state with popped, dispatched := ptask :: state.dispatched })
  else (true, { state with popped, taskListTimed := insertTimedTask ptask state.taskListTimed })

/-- A call of one of the three functions. -/
inductive TaskCall
  | setTask (type : WorkType) (eventId : Int) (func : Bool)
  | popTimedTask (timeNow : Int)
  | dispatchTimedTask (ptask : WorkTask) (pool : ThreadPool)

/-- What a call does. -/
def taskStep (state : TaskState) : TaskCall → TaskState
  | .setTask type eventId func => setTask state type eventId func
  | .popTimedTask timeNow =>
    let (wt, taskListTimed) := popTimedTask timeNow state.taskListTimed
    { state with taskListTimed, popped := wt.toList ++ state.popped, timeNow }
  | .dispatchTimedTask ptask pool => (dispatchTimedTask state ptask pool).2

/-- Time does not go back, and only popped tasks are dispatched. -/
def TaskAllowed (state : TaskState) : TaskCall → Prop
  | .setTask .. => True
  | .popTimedTask timeNow => state.timeNow ≤ timeNow
  | .dispatchTimedTask ptask _ => ptask ∈ state.popped

/-! ## Every task has one place -/

/-- All tasks that are somewhere. -/
def TaskState.places (state : TaskState) : List WorkTask :=
  state.taskListTimed.map (·.wt) ++ (state.popped ++ state.dispatched)

/-- What holds in every state of a run. -/
structure TaskState.Sound (state : TaskState) : Prop where
  numbered : state.allocated.map (·.address) = range state.allocated.length
  placed : state.places.Perm state.allocated
  sorted : state.taskListTimed.Pairwise Before
  poppedDue : ∀ task ∈ state.popped, task.wtEvent ≤ state.timeNow
  due : ∀ task ∈ state.dispatched, task.wtType = .immed ∨ task.wtEvent ≤ state.timeNow

variable {state : TaskState} {list : List TimedTask} {timeNow : Int}

theorem map_insertTimedTask (wt : WorkTask) :
    ((insertTimedTask wt list).map (·.wt)).Perm (wt :: list.map (·.wt)) :=
  (perm_orderedInsert ..).map _

/-- A task that is popped is the first of the list and is due; otherwise none is due. -/
theorem popTimedTask_cases (sorted : list.Pairwise Before) (timeNow : Int) :
    (∃ task rest, list = task :: rest ∧ task.wt.wtEvent ≤ timeNow ∧
        popTimedTask timeNow list = (some task.wt, rest)) ∨
      (∀ task ∈ list, timeNow < task.taskTime) ∧ popTimedTask timeNow list = (none, list) := by
  cases list with
  | nil => exact .inr ⟨nofun, rfl⟩
  | cons task rest =>
    by_cases due : task.taskTime ≤ timeNow
    · exact .inl ⟨task, rest, rfl, task.stamped ▸ due, if_pos due⟩
    · have first := Int.not_le.mp due
      exact .inr ⟨forall_mem_cons.mpr ⟨first, fun other mem =>
        first.trans_le ((pairwise_cons.mp sorted).1 other mem)⟩, if_neg due⟩

namespace TaskState.Sound

theorem setTask (sound : state.Sound) (type : WorkType) (eventId : Int) (func : Bool) :
    (setTask state type eventId func).Sound := by
  let pnew : WorkTask := ⟨state.allocated.length, eventId, type, func⟩
  have numbered : (state.allocated ++ [pnew]).map (·.address) =
      range (state.allocated ++ [pnew]).length := by
    rw [map_append, sound.numbered, length_append, length_singleton, range_succ]
    rfl
  have enlarged : (pnew :: state.places).Perm (state.allocated ++ [pnew]) :=
    (sound.placed.cons pnew).trans (perm_append_singleton ..).symm
  unfold Server.setTask
  split
  · next immediate =>
    refine { sound with numbered, placed := .trans ?_ enlarged, due := ?_ }
    · exact (perm_middle.append_left _).trans perm_middle
    · exact forall_mem_cons.mpr ⟨.inl immediate, sound.due⟩
  · have placed := ((map_insertTimedTask pnew).append_right _).trans enlarged
    exact { sound with numbered, placed, sorted := sound.sorted.orderedInsert _ _ }

theorem popTimedTask (sound : state.Sound) (later : state.timeNow ≤ timeNow) :
    (taskStep state (.popTimedTask timeNow)).Sound := by
  have poppedDue : ∀ task ∈ state.popped, task.wtEvent ≤ timeNow :=
    fun task mem => (sound.poppedDue task mem).trans later
  have due : ∀ task ∈ state.dispatched, task.wtType = .immed ∨ task.wtEvent ≤ timeNow :=
    fun task mem => (sound.due task mem).imp_right later.trans'
  have placed := sound.placed
  have sorted := sound.sorted
  rcases popTimedTask_cases sorted timeNow with ⟨task, rest, front, ready, popped⟩ | ⟨-, none⟩
  · rw [taskStep, popped]
    rw [places, front] at placed
    rw [front] at sorted
    exact { sound with
            placed := perm_middle.trans placed
            sorted := sorted.of_cons
            poppedDue := forall_mem_cons.mpr ⟨ready, poppedDue⟩
            due }
  · rw [taskStep, none]
    exact { sound with poppedDue, due }

theorem dispatchTimedTask (sound : state.Sound) {ptask : WorkTask} (mem : ptask ∈ state.popped)
    (pool : ThreadPool) : (dispatchTimedTask state ptask pool).2.Sound := by
  have placed := (((perm_cons_erase mem).symm.append_right _).append_left _).trans sound.placed
  have poppedDue : ∀ task ∈ state.popped.erase ptask, task.wtEvent ≤ state.timeNow :=
    fun task mem => sound.poppedDue task (mem_of_mem_erase mem)
  unfold Server.dispatchTimedTask
  split
  · refine { sound with placed := ?_, poppedDue, due := ?_ }
    · exact (perm_middle.append_left _).trans placed
    · exact forall_mem_cons.mpr ⟨.inr (sound.poppedDue ptask mem), sound.due⟩
  · replace placed := ((map_insertTimedTask ptask).append_right _).trans
      (perm_middle.symm.trans placed)
    exact { sound with placed, sorted := sound.sorted.orderedInsert _ _, poppedDue }

theorem step (sound : state.Sound) {call : TaskCall} (allowed : TaskAllowed state call) :
    (taskStep state call).Sound := by
  cases call with
  | setTask type eventId func => exact sound.setTask type eventId func
  | popTimedTask timeNow => exact sound.popTimedTask allowed
  | dispatchTimedTask ptask pool => exact sound.dispatchTimedTask allowed pool

end TaskState.Sound

/-- The list is sorted; no task is handed over twice or early, and one that was not dispatched is
in the list or popped; a refused task is put back; what is popped is due and has the least time,
and nothing is popped iff no task is due. -/
theorem timed_tasks_kept (timeNow : Int) (calls : List TaskCall)
    (admissible : Admissible taskStep TaskAllowed ⟨[], [], [], [], timeNow⟩ calls) :
    let state := run taskStep ⟨[], [], [], [], timeNow⟩ calls
    let list := state.taskListTimed
    list.Pairwise Before ∧ state.taskPool.Nodup ∧
    (∀ task ∈ state.taskPool, task.wtType = .immed ∨ task.wtEvent ≤ state.timeNow) ∧
    state.places.Perm state.allocated ∧
    (∀ ptask pool, canDispatchTask pool = false →
      let refused := (dispatchTimedTask state ptask pool).2
      (refused.taskListTimed.map (·.wt)).Perm (ptask :: list.map (·.wt)) ∧
        refused.taskPool = state.taskPool) ∧
    ∀ timeNow,
      (∀ wt, (popTimedTask timeNow list).1 = some wt →
        wt ∈ list.map (·.wt) ∧ wt.wtEvent ≤ timeNow ∧ ∀ task ∈ list, wt.wtEvent ≤ task.taskTime) ∧
      ((popTimedTask timeNow list).1 = none ↔ ∀ task ∈ list, timeNow < task.taskTime) := by
  have initial : (⟨[], [], [], [], timeNow⟩ : TaskState).Sound := ⟨rfl, .nil, .nil, nofun, nofun⟩
  have sound := invariant TaskState.Sound initial (fun _ _ sound => sound.step) admissible
  intro state list
  have nodup : state.places.Nodup := by
    have apart := nodup_range (n := state.allocated.length)
    rw [← sound.numbered] at apart
    exact sound.placed.nodup_iff.mpr apart.of_map
  refine ⟨sound.sorted, ?_, ?_, sound.placed, ?_, ?_⟩
  · exact (nodup_append.mp (nodup_append.mp nodup).2.1).2.1.filter _
  · exact fun task mem => sound.due task (mem_filter.mp mem).1
  · intro ptask pool busy
    simp only [dispatchTimedTask, busy]
    exact ⟨map_insertTimedTask ptask, rfl⟩
  · intro timeNow
    have sorted : list.Pairwise Before := sound.sorted
    rcases popTimedTask_cases sorted timeNow with ⟨task, rest, front, due, popped⟩ | ⟨early, none⟩
    · rw [popped]
      rw [front] at sorted ⊢
      have stamped := task.stamped
      refine ⟨?_, nofun, fun early => ?_⟩
      · rintro _ ⟨⟩
        rw [← stamped]
        exact ⟨mem_cons_self, stamped ▸ due,
          forall_mem_cons.mpr ⟨le_rfl, (pairwise_cons.mp sorted).1⟩⟩
      · have := early task mem_cons_self
        omega
    · rw [none]
      exact ⟨nofun, fun _ => early, fun _ => rfl⟩

/-- A task whose time has come is refused at first and then handed over. -/
theorem timed_tasks_kept_retry :
    let wt : WorkTask := ⟨0, 5, .timed, true⟩
    let calls : List TaskCall := [.setTask .timed 5 true, .popTimedTask 6,
      .dispatchTimedTask wt ⟨10, 10, 1⟩, .popTimedTask 7, .dispatchTimedTask wt ⟨10, 9, 1⟩]
    let state := run taskStep ⟨[], [], [], [], 0⟩ calls
    state.taskPool = [wt] ∧ state.taskPool.Nodup := by
  intro wt calls state
  exact ⟨rfl, (timed_tasks_kept 0 calls
    ⟨trivial, (by decide : (0 : Int) ≤ 6), .head _, (by decide : (6 : Int) ≤ 7), .head _,
      trivial⟩).2.1⟩

end Torque.Server
