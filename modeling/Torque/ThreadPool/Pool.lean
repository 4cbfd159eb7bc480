import Torque.Structure.Tally
import Torque.Transition.Run

/-!
# The thread pool

Requests are put at the end of a queue and taken from its beginning by the threads of the
pool.  A thread with nothing to do sleeps on a condition variable; if the pool has more threads
than its minimum the sleep may time out, and the thread may then leave the pool.  A request
that finds no idle thread makes a new one, up to the maximum.

Everything between taking the mutex of the pool and giving it back is one step.  A step that
creates a thread is told whether the creation succeeds, and a request that signals the
condition is told which sleeper is woken.
-/

namespace Torque.ThreadPool

universe u

variable {ρ : Type u}

/-- Where a thread is while it does not hold the mutex. -/
inductive Place (ρ : Type u) where
  /-- The thread has not yet taken the mutex for the first time. -/
  | created
  /-- It is idle, and sleeps until the pool is started. -/
  | unstarted
  /-- It sleeps in `pthread_cond_wait`, or in `pthread_cond_timedwait`. -/
  | waiting (timed : Bool)
  /-- Its sleep is over, by a signal or for no reason. -/
  | woken (signalled : Bool)
  /-- Its sleep has timed out. -/
  | expired
  /-- It runs a request. -/
  | working (work : ρ)
  /-- The request has returned. -/
  | returning
  /-- It has left the pool. -/
  | exited
  deriving DecidableEq, Repr

/-- A thread of the pool; `timedOut` says that its variable `rc` is `ETIMEDOUT`. -/
structure Worker (ρ : Type u) where
  place : Place ρ
  timedOut : Bool
  deriving DecidableEq, Repr

namespace Worker

variable (worker : Worker ρ)

/-- The thread has not left the pool. -/
def isLive : Bool :=
  match worker.place with
  | .exited => false
  | _ => true

/-- The thread is between becoming idle and taking a request. -/
def isIdle : Bool :=
  match worker.place with
  | .unstarted | .waiting _ | .woken _ | .expired => true
  | _ => false

/-- The thread sleeps on the condition variable. -/
def isWaiting : Bool :=
  match worker.place with
  | .waiting _ => true
  | _ => false

/-- The thread has been woken by a signal. -/
def isSignalled : Bool :=
  match worker.place with
  | .woken signalled => signalled
  | _ => false

/-- The thread has gone to sleep on the condition variable. -/
def hasWaited : Bool :=
  match worker.place with
  | .waiting _ | .woken _ | .expired => true
  | _ => false

/-- The thread goes on as soon as it gets the mutex. -/
def isReady : Bool :=
  match worker.place with
  | .created | .unstarted | .woken _ | .expired | .returning => true
  | _ => false

end Worker

/-- The fields of `threadpool_t`, the threads of the pool, and what has been put into the queue
and taken out of it so far. -/
structure Pool (ρ : Type u) where
  first : List ρ
  nthreads : Int
  idleThreads : Int
  minThreads : Int
  maxThreads : Int
  maxIdleSecs : Int
  destroy : Bool
  started : Bool
  threads : List (Worker ρ)
  enqueued : List ρ
  taken : List ρ
  deriving DecidableEq, Repr

namespace Pool

/-- `create_work_thread`, and the count of threads if it succeeds. -/
def createWorkThread (pool : Pool ρ) (succeeds : Bool) : Pool ρ :=
  if succeeds then
    { pool with
      threads := pool.threads ++ [⟨.created, false⟩]
      nthreads := pool.nthreads + 1 }
  else pool

/-- `initialize_threadpool`; a static pool gets its threads at once, `made` of them before a
creation fails. -/
def initializeThreadpool (minThreads maxThreads maxIdleTime : Int) (made : Nat) : Option (Pool ρ) :=
  if minThreads > maxThreads ∨ maxThreads < 1 then none
  else
    let count := if maxIdleTime < 0 then min made minThreads.toNat else 0
    some {
      first := []
      nthreads := count
      idleThreads := 0
      minThreads := minThreads
      maxThreads := maxThreads
      maxIdleSecs := maxIdleTime
      destroy := false
      started := false
      threads := List.replicate count ⟨.created, false⟩
      enqueued := []
      taken := [] }

variable (pool : Pool ρ) (t : Nat)

/-- A thread gives the mutex back. -/
def put (place : Place ρ) (timedOut : Bool) : Pool ρ :=
  { pool with threads := pool.threads.set t ⟨place, timedOut⟩ }

/-- `work_thread_cleanup`. -/
def workThreadCleanup (pool : Pool ρ) (succeeds : Bool) : Pool ρ :=
  let left := { pool with nthreads := pool.nthreads - 1 }
  if left.destroy then left
  else if left.nthreads = 0 then left.createWorkThread succeeds
  else if left.first ≠ [] ∧ left.nthreads < left.minThreads then left.createWorkThread succeeds
  else left

variable (timedOut succeeds : Bool)

/-- The thread leaves its loop, no longer idle, and exits. -/
def exit : Pool ρ :=
  { pool.put t .exited timedOut with
    idleThreads := pool.idleThreads - 1 }.workThreadCleanup succeeds

/-- The thread takes a request and goes to run it. -/
def take (timedOut : Bool) (work : ρ) (rest : List ρ) : Pool ρ :=
  { pool.put t (.working work) timedOut with
    idleThreads := pool.idleThreads - 1
    first := rest
    taken := pool.taken ++ [work] }

/-- The thread sleeps on the condition variable. -/
def wait (timedOut : Bool) : Pool ρ :=
  pool.put t (.waiting (!decide (pool.nthreads ≤ pool.minThreads ∨ pool.maxIdleSecs < 0)))
    timedOut

/-- The loop of `work_thread` behind the wait for work.  A thread that finds no request after
its time-out is idle again at once, and goes back to sleep. -/
def leaveWait : Pool ρ :=
  if timedOut = true ∧ pool.nthreads > pool.minThreads ∧ pool.idleThreads > 2 then
    pool.exit t timedOut succeeds
  else if pool.destroy then pool.exit t timedOut succeeds
  else
    match pool.first with
    | work :: rest => pool.take t timedOut work rest
    | [] => if pool.started then pool.wait t timedOut else pool.put t .unstarted timedOut

/-- The thread sleeps if there is nothing to do. -/
def waitForWork : Pool ρ :=
  if pool.first = [] ∧ pool.destroy = false then pool.wait t timedOut
  else pool.leaveWait t timedOut succeeds

/-- The thread stays asleep until the pool is started. -/
def awaitStart : Pool ρ :=
  if pool.started then pool.waitForWork t timedOut succeeds
  else pool.put t .unstarted timedOut

/-- The thread counts itself as idle. -/
def becomeIdle (timedOut : Bool) : Pool ρ :=
  { pool.put t .unstarted timedOut with idleThreads := pool.idleThreads + 1 }

/-- `work_thread` from where the thread gets the mutex to where it gives it back. -/
def lock (succeeds : Bool) : Pool ρ :=
  match pool.threads[t]? with
  | none => pool
  | some worker =>
    match worker.place with
    | .created | .returning =>
      (pool.becomeIdle t worker.timedOut).awaitStart t worker.timedOut succeeds
    | .unstarted => pool.awaitStart t worker.timedOut succeeds
    | .woken _ => pool.waitForWork t worker.timedOut succeeds
    | .expired => pool.leaveWait t worker.timedOut succeeds
    | .waiting _ | .working _ | .exited => pool

/-- The sleep of a thread ends; the result of a timed wait is stored in `rc`. -/
def wake (signalled : Bool) : Pool ρ :=
  match pool.threads[t]? with
  | none => pool
  | some worker =>
    match worker.place with
    | .waiting timed => pool.put t (.woken signalled) (worker.timedOut && !timed)
    | _ => pool

/-- The timed sleep of a thread runs out. -/
def timeOut : Pool ρ :=
  match pool.threads[t]? with
  | none => pool
  | some worker =>
    match worker.place with
    | .waiting true => pool.put t .expired true
    | _ => pool

/-- The request of a thread returns. -/
def finish : Pool ρ :=
  match pool.threads[t]? with
  | none => pool
  | some worker =>
    match worker.place with
    | .working _ => pool.put t .returning worker.timedOut
    | _ => pool

variable (pool : Pool ρ) (work : ρ)

/-- A request is put at the end of the queue. -/
def append : Pool ρ :=
  { pool with first := pool.first ++ [work], enqueued := pool.enqueued ++ [work] }

/-- `enqueue_threadpool_request`; a signal wakes the sleeper named by `waiter`. -/
def enqueue (succeeds : Bool) (waiter : Nat) : Pool ρ :=
  let longer := pool.append work
  if longer.idleThreads > 0 then longer.wake waiter true
  else if longer.nthreads < longer.maxThreads then longer.createWorkThread succeeds
  else longer

/-- `start_request_pool`. -/
def start : Pool ρ :=
  { pool with started := true }

end Pool

variable {pool : Pool ρ} {t : Nat} {worker : Worker ρ}

/-- What can happen to a pool. -/
inductive Event (ρ : Type u) where
  | enqueue (work : ρ) (succeeds : Bool) (waiter : Nat)
  | lock (t : Nat) (succeeds : Bool)
  | wake (t : Nat)
  | timeOut (t : Nat)
  | finish (t : Nat)
  | start
  deriving DecidableEq, Repr

/-- The step of an event. -/
def step (pool : Pool ρ) : Event ρ → Pool ρ
  | .enqueue work succeeds waiter => pool.enqueue work succeeds waiter
  | .lock t succeeds => pool.lock t succeeds
  | .wake t => pool.wake t false
  | .timeOut t => pool.timeOut t
  | .finish t => pool.finish t
  | .start => pool.start

theorem getElem?_put (found : pool.threads[t]? = some worker) (place : Place ρ)
    (timedOut : Bool) : (pool.put t place timedOut).threads[t]? = some ⟨place, timedOut⟩ :=
  List.getElem?_set_self (List.getElem?_eq_some_iff.1 found).1

/-! ## What a thread does with the mutex -/

section

/-- What an idle thread does until it gives the mutex back. -/
inductive Moves (pool : Pool ρ) (t : Nat) (timedOut succeeds : Bool) : Pool ρ → Prop where
  | sleeps : pool.started = false →
      Moves pool t timedOut succeeds (pool.put t .unstarted timedOut)
  | waits : pool.started = true → pool.first = [] →
      Moves pool t timedOut succeeds (pool.wait t timedOut)
  | takes (work : ρ) (rest : List ρ) : pool.first = work :: rest →
      Moves pool t timedOut succeeds (pool.take t timedOut work rest)
  | exits : timedOut = true → pool.nthreads > pool.minThreads → pool.idleThreads > 2 →
      Moves pool t timedOut succeeds (pool.exit t timedOut succeeds)

variable {pool : Pool ρ} (running : pool.destroy = false) (t : Nat) (timedOut succeeds : Bool)

include running

theorem moves_leaveWait : Moves pool t timedOut succeeds (pool.leaveWait t timedOut succeeds) := by
  unfold Pool.leaveWait
  by_cases leaves : timedOut = true ∧ pool.nthreads > pool.minThreads ∧ pool.idleThreads > 2
  · rw [if_pos leaves]
    exact .exits leaves.1 leaves.2.1 leaves.2.2
  · rw [if_neg leaves, if_neg (by simp [running])]
    cases queue : pool.first with
    | nil =>
      cases started : pool.started with
      | false => exact .sleeps started
      | true => exact .waits started queue
    | cons work rest => exact .takes work rest queue

theorem moves_waitForWork (started : pool.started = true) :
    Moves pool t timedOut succeeds (pool.waitForWork t timedOut succeeds) := by
  unfold Pool.waitForWork
  by_cases empty : pool.first = []
  · rw [if_pos ⟨empty, running⟩]
    exact .waits started empty
  · rw [if_neg (fun both => empty both.1)]
    exact moves_leaveWait running t timedOut succeeds

theorem moves_awaitStart :
    Moves pool t timedOut succeeds (pool.awaitStart t timedOut succeeds) := by
  unfold Pool.awaitStart
  cases started : pool.started with
  | false => exact .sleeps started
  | true => exact moves_waitForWork running t timedOut succeeds started

end

variable {pool : Pool ρ} {t : Nat}

/-- A thread that gets the mutex is idle, or makes itself idle, and then goes on. -/
theorem lock_moves (running : pool.destroy = false)
    (found : pool.threads[t]? = some worker) (begun : worker.hasWaited = true → pool.started = true)
    (ready : worker.isReady = true) (succeeds : Bool) :
    (worker.isIdle = true ∧ Moves pool t worker.timedOut succeeds (pool.lock t succeeds)) ∨
      worker.isIdle = false ∧ worker.isLive = true ∧ worker.isSignalled = false ∧
        Moves (pool.becomeIdle t worker.timedOut) t worker.timedOut succeeds
          (pool.lock t succeeds) := by
  rcases worker with ⟨place, timedOut⟩
  have running' : (pool.becomeIdle t timedOut).destroy = false := running
  unfold Pool.lock
  rw [found]
  cases place with
  | created => exact .inr ⟨rfl, rfl, rfl, moves_awaitStart running' t timedOut succeeds⟩
  | returning => exact .inr ⟨rfl, rfl, rfl, moves_awaitStart running' t timedOut succeeds⟩
  | unstarted => exact .inl ⟨rfl, moves_awaitStart running t timedOut succeeds⟩
  | woken signalled => exact .inl ⟨rfl, moves_waitForWork running t timedOut succeeds (begun rfl)⟩
  | expired => exact .inl ⟨rfl, moves_leaveWait running t timedOut succeeds⟩
  | waiting timed => exact absurd ready (by simp [Worker.isReady])
  | working work => exact absurd ready (by simp [Worker.isReady])
  | exited => exact absurd ready (by simp [Worker.isReady])

theorem lock_of_not_ready (idle : ∀ worker, pool.threads[t]? = some worker → worker.isReady = false)
    (succeeds : Bool) : pool.lock t succeeds = pool := by
  unfold Pool.lock
  cases found : pool.threads[t]? with
  | none => rfl
  | some worker =>
    have unready := idle worker found
    rcases worker with ⟨place, timedOut⟩
    cases place <;> first | rfl | exact absurd unready (by simp [Worker.isReady])

/-! ## The other events of a thread -/

variable (pool : Pool ρ) (t : Nat)

theorem wake_cases (signalled : Bool) :
    ((∀ worker, pool.threads[t]? = some worker → worker.isWaiting = false) ∧
        pool.wake t signalled = pool) ∨
      ∃ timed timedOut, pool.threads[t]? = some ⟨.waiting timed, timedOut⟩ ∧
        pool.wake t signalled = pool.put t (.woken signalled) (timedOut && !timed) := by
  unfold Pool.wake
  cases found : pool.threads[t]? with
  | none => exact .inl ⟨fun _ found => (by cases found), rfl⟩
  | some worker =>
    rcases worker with ⟨place, timedOut⟩
    cases place with
    | waiting timed => exact .inr ⟨timed, timedOut, rfl, rfl⟩
    | _ => exact .inl ⟨fun _ found => (by cases found; rfl), rfl⟩

theorem timeOut_cases :
    pool.timeOut t = pool ∨
      ∃ timedOut, pool.threads[t]? = some ⟨.waiting true, timedOut⟩ ∧
        pool.timeOut t = pool.put t .expired true := by
  unfold Pool.timeOut
  cases found : pool.threads[t]? with
  | none => exact .inl rfl
  | some worker =>
    rcases worker with ⟨place, timedOut⟩
    cases place with
    | waiting timed =>
      cases timed with
      | false => exact .inl rfl
      | true => exact .inr ⟨timedOut, rfl, rfl⟩
    | _ => exact .inl rfl

theorem finish_cases :
    pool.finish t = pool ∨
      ∃ work timedOut, pool.threads[t]? = some ⟨.working work, timedOut⟩ ∧
        pool.finish t = pool.put t .returning timedOut := by
  unfold Pool.finish
  cases found : pool.threads[t]? with
  | none => exact .inl rfl
  | some worker =>
    rcases worker with ⟨place, timedOut⟩
    cases place with
    | working work => exact .inr ⟨work, timedOut, rfl, rfl⟩
    | _ => exact .inl rfl

end Torque.ThreadPool
