import Torque.ThreadPool.Pool

/-!
# Order and counters of the thread pool

In every state that a pool reaches, the requests taken so far and those in the queue are, in
this order, the requests put into it; the count of threads is right and at most the maximum,
and the count of idle threads is right.  This does not depend on what the scheduler of the
system does, nor on whether threads can be created.
-/

namespace Torque.ThreadPool

open Torque.Structure Torque.Transition Worker

universe u

variable {ρ : Type u} {pool after : Pool ρ} {t : Nat} {worker : Worker ρ}

/-- The queue is in order and the counters are right. -/
structure Balanced (pool : Pool ρ) : Prop where
  running : pool.destroy = false
  order : pool.enqueued = pool.taken ++ pool.first
  threads : pool.nthreads = pool.threads.countP Worker.isLive
  idle : pool.idleThreads = pool.threads.countP Worker.isIdle
  bounded : pool.nthreads ≤ pool.maxThreads
  limits : pool.minThreads ≤ pool.maxThreads
  room : 1 ≤ pool.maxThreads
  begun : ∀ worker ∈ pool.threads, worker.hasWaited = true → pool.started = true

theorem isLive_of_isIdle (idle : worker.isIdle = true) : worker.isLive = true := by
  rcases worker with ⟨place, timedOut⟩
  cases place <;> first | rfl | exact idle

/-- What holds of all threads still does when one of them changes. -/
theorem forall_mem_set {p : Worker ρ → Prop} {threads : List (Worker ρ)}
    (all : ∀ worker ∈ threads, p worker) {new : Worker ρ} (here : p new) (t : Nat) :
    ∀ worker ∈ threads.set t new, p worker := by
  intro worker mem
  rcases List.mem_or_eq_of_mem_set mem with old | rfl
  · exact all worker old
  · exact here

namespace Balanced

section

variable (balanced : Balanced pool)
include balanced

section

variable (found : pool.threads[t]? = some worker)
include found

theorem begun_of_found : worker.hasWaited = true → pool.started = true :=
  balanced.begun worker (List.mem_of_getElem? found)

/-- A thread that has not left keeps the balance if the counter of idle threads goes along with
it. -/
theorem change (new : Worker ρ) {idleThreads : Int} {first taken : List ρ}
    (order : pool.enqueued = taken ++ first) (live : new.isLive = worker.isLive)
    (idle : idleThreads + worker.isIdle.toNat = pool.idleThreads + new.isIdle.toNat)
    (begun : new.hasWaited = true → pool.started = true) :
    Balanced { pool with
      threads := pool.threads.set t new
      idleThreads := idleThreads
      first := first
      taken := taken } where
  running := balanced.running
  order := order
  threads := by
    have count := countP_set_add isLive new found
    rw [live] at count
    rw [Nat.add_right_cancel count]
    exact balanced.threads
  idle := by
    have count := countP_set_add isIdle new found
    rw [balanced.idle] at idle
    dsimp only
    omega
  bounded := balanced.bounded
  limits := balanced.limits
  room := balanced.room
  begun := forall_mem_set balanced.begun begun t

/-- A thread that is as idle as before, and has not left, keeps the balance. -/
theorem put {place : Place ρ} {timedOut : Bool}
    (live : Worker.isLive ⟨place, timedOut⟩ = worker.isLive)
    (idle : Worker.isIdle ⟨place, timedOut⟩ = worker.isIdle)
    (begun : Worker.hasWaited ⟨place, timedOut⟩ = true → pool.started = true) :
    Balanced (pool.put t place timedOut) :=
  balanced.change found ⟨place, timedOut⟩ balanced.order live (by rw [idle]) begun

end

theorem createWorkThread (room : pool.nthreads < pool.maxThreads) (succeeds : Bool) :
    Balanced (pool.createWorkThread succeeds) := by
  cases succeeds with
  | false => exact balanced
  | true =>
    constructor
    · exact balanced.running
    · exact balanced.order
    · simp [Pool.createWorkThread, balanced.threads, isLive]
    · simp [Pool.createWorkThread, balanced.idle, isIdle]
    · exact room
    · exact balanced.limits
    · exact balanced.room
    · intro worker mem waited
      rcases List.mem_append.1 mem with old | new
      · exact balanced.begun worker old waited
      · obtain rfl := List.mem_singleton.1 new
        exact absurd waited Bool.false_ne_true

variable (found : pool.threads[t]? = some worker)
include found

theorem becomeIdle (live : worker.isLive = true) (busy : worker.isIdle = false) (timedOut : Bool) :
    Balanced (pool.becomeIdle t timedOut) :=
  balanced.change found ⟨.unstarted, timedOut⟩ balanced.order live.symm
    (by rw [busy]; exact Int.add_zero _) nofun

/-- An idle thread takes the first request. -/
theorem take (idle : worker.isIdle = true) (timedOut : Bool) {work : ρ} {rest : List ρ}
    (queue : pool.first = work :: rest) : Balanced (pool.take t timedOut work rest) :=
  balanced.change found ⟨.working work, timedOut⟩ (by simp [balanced.order, queue])
    (isLive_of_isIdle idle).symm (by simp [idle, isIdle.eq_def ⟨.working work, timedOut⟩])
    nofun

end

theorem workThreadCleanup (balanced : Balanced { pool with nthreads := pool.nthreads - 1 })
    (succeeds : Bool) : Balanced (pool.workThreadCleanup succeeds) := by
  have limits := balanced.limits
  have room := balanced.room
  unfold Pool.workThreadCleanup
  dsimp only at limits room ⊢
  rw [if_neg (by simpa using balanced.running)]
  split_ifs with last few
  · exact balanced.createWorkThread (by dsimp only; omega) succeeds
  · exact balanced.createWorkThread (by dsimp only; omega) succeeds
  · exact balanced

variable (balanced : Balanced pool)
include balanced

theorem exit (found : pool.threads[t]? = some worker) (idle : worker.isIdle = true)
    (timedOut succeeds : Bool) : Balanced (pool.exit t timedOut succeeds) := by
  have live := countP_set_add isLive ⟨.exited, timedOut⟩ found
  have idleCount := countP_set_add isIdle ⟨.exited, timedOut⟩ found
  have bounded := balanced.bounded
  rw [isLive_of_isIdle idle] at live
  rw [idle] at idleCount
  simp only [isLive, isIdle, Bool.toNat_true, Bool.toNat_false] at live idleCount
  apply workThreadCleanup
  constructor
  · exact balanced.running
  · exact balanced.order
  · simp only [Pool.put, balanced.threads]
    omega
  · simp only [Pool.put, balanced.idle]
    omega
  · simp only [Pool.put]
    omega
  · exact balanced.limits
  · exact balanced.room
  · exact forall_mem_set balanced.begun (fun waited => by cases waited) t

/-- Whatever an idle thread does with the mutex keeps the balance. -/
theorem moves (found : pool.threads[t]? = some worker) (idle : worker.isIdle = true)
    {timedOut succeeds : Bool} (moves : Moves pool t timedOut succeeds after) : Balanced after := by
  have live := isLive_of_isIdle idle
  cases moves with
  | sleeps => exact balanced.put found live.symm idle.symm nofun
  | waits started => exact balanced.put found live.symm idle.symm (fun _ => started)
  | takes work rest queue => exact balanced.take found idle timedOut queue
  | exits => exact balanced.exit found idle timedOut succeeds

/-- A thread gets the mutex: nothing happens, or what an idle thread does. -/
theorem lock_cases (t : Nat) (succeeds : Bool) :
    pool.lock t succeeds = pool ∨
      ∃ worker idle, pool.threads[t]? = some worker ∧ worker.isReady = true ∧ Balanced idle ∧
        (∃ worker', idle.threads[t]? = some worker' ∧ worker'.isIdle = true) ∧
        (idle = pool ∨
          worker.isSignalled = false ∧ idle = pool.becomeIdle t worker.timedOut) ∧
        Moves idle t worker.timedOut succeeds (pool.lock t succeeds) := by
  by_cases ready : ∃ worker, pool.threads[t]? = some worker ∧ worker.isReady = true
  · rcases ready with ⟨worker, found, ready⟩
    rcases lock_moves balanced.running found (balanced.begun_of_found found) ready succeeds with
      ⟨idle, moves⟩ | ⟨busy, live, unsignalled, moves⟩
    · exact .inr ⟨worker, pool, found, ready, balanced, ⟨worker, found, idle⟩, .inl rfl, moves⟩
    · have self := getElem?_put found .unstarted worker.timedOut
      exact .inr ⟨worker, _, found, ready, balanced.becomeIdle found live busy worker.timedOut,
        ⟨_, self, rfl⟩, .inr ⟨unsignalled, rfl⟩, moves⟩
  · exact .inl (lock_of_not_ready (by simpa using ready) succeeds)

theorem lock (t : Nat) (succeeds : Bool) : Balanced (pool.lock t succeeds) := by
  rcases balanced.lock_cases t succeeds with
    same | ⟨_, _, -, -, balancedIdle, ⟨_, found, idle⟩, -, moves⟩
  · rw [same]
    exact balanced
  · exact balancedIdle.moves found idle moves

/-- A sleeper that is woken stays idle. -/
theorem wake (t : Nat) (signalled : Bool) : Balanced (pool.wake t signalled) := by
  rcases wake_cases pool t signalled with ⟨-, same⟩ | ⟨timed, timedOut, found, woken⟩
  · rw [same]
    exact balanced
  · rw [woken]
    exact balanced.put found rfl rfl (fun _ => balanced.begun_of_found found rfl)

theorem timeOut (t : Nat) : Balanced (pool.timeOut t) := by
  rcases timeOut_cases pool t with same | ⟨timedOut, found, expired⟩
  · rw [same]
    exact balanced
  · rw [expired]
    exact balanced.put found rfl rfl (fun _ => balanced.begun_of_found found rfl)

theorem finish (t : Nat) : Balanced (pool.finish t) := by
  rcases finish_cases pool t with same | ⟨work, timedOut, found, finished⟩
  · rw [same]
    exact balanced
  · rw [finished]
    exact balanced.put found rfl rfl nofun

theorem append (work : ρ) : Balanced (pool.append work) where
  running := balanced.running
  order := by simp [Pool.append, balanced.order]
  threads := balanced.threads
  idle := balanced.idle
  bounded := balanced.bounded
  limits := balanced.limits
  room := balanced.room
  begun := balanced.begun

theorem enqueue (work : ρ) (succeeds : Bool) (waiter : Nat) :
    Balanced (pool.enqueue work succeeds waiter) := by
  unfold Pool.enqueue
  dsimp only
  split_ifs with some_ few
  · exact (balanced.append work).wake waiter true
  · exact (balanced.append work).createWorkThread few succeeds
  · exact balanced.append work

theorem start : Balanced pool.start :=
  ⟨balanced.running, balanced.order, balanced.threads, balanced.idle, balanced.bounded,
    balanced.limits, balanced.room, fun _ _ _ => rfl⟩

theorem step (event : Event ρ) : Balanced (step pool event) := by
  cases event with
  | enqueue work succeeds waiter => exact balanced.enqueue work succeeds waiter
  | lock t succeeds => exact balanced.lock t succeeds
  | wake t => exact balanced.wake t false
  | timeOut t => exact balanced.timeOut t
  | finish t => exact balanced.finish t
  | start => exact balanced.start

end Balanced

variable {made : Nat} {maxIdleTime maxThreads minThreads : Int}

variable
  (initialized : Pool.initializeThreadpool minThreads maxThreads maxIdleTime made = some pool)
include initialized

theorem balanced_initializeThreadpool : Balanced pool := by
  unfold Pool.initializeThreadpool at initialized
  by_cases bad : minThreads > maxThreads ∨ maxThreads < 1
  · rw [if_pos bad] at initialized
    cases initialized
  rw [if_neg bad] at initialized
  rw [not_or, not_lt, not_lt] at bad
  cases initialized
  constructor
  · rfl
  · rfl
  · simp [List.countP_replicate, isLive]
  · simp [List.countP_replicate, isIdle]
  · dsimp only
    split_ifs <;> omega
  · exact bad.1
  · exact bad.2
  · intro worker mem waited
    obtain rfl := List.eq_of_mem_replicate mem
    exact absurd waited Bool.false_ne_true

/-- The balance holds in every state that a new pool reaches. -/
theorem balanced_run (events : List (Event ρ)) : Balanced (run step pool events) :=
  run_invariant Balanced (balanced_initializeThreadpool initialized)
    (fun _ event balanced => balanced.step event) events

end Torque.ThreadPool
