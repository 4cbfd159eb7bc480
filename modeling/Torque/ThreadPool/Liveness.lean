import Torque.ThreadPool.Alert
import Torque.Transition.Fair

/-!
# Every request is run

In an infinite run of a started pool every request is taken by a thread, if the mutex is
given to every thread that waits for it, every request returns, a signal wakes a sleeper if
there is one, and threads can be created.  Nothing is assumed about time-outs.

A thread that gets the mutex while the queue is not empty either takes a request or leaves
the pool.  A thread that leaves is not replaced, and a thread that is created does not leave
before its first request.  So the number of threads bounds the number of those that leave before
a request is taken.
-/

namespace Torque.ThreadPool

open Torque.Transition List

universe u

variable {ρ : Type u} {pool after : Pool ρ} {t : Nat} {worker : Worker ρ} {succeeds timedOut : Bool}
  {event : Event ρ}

/-! ## One step -/

/-- What the histories and the start of the pool do in a step. -/
structure Extends (pool after : Pool ρ) : Prop where
  started : pool.started = true → after.started = true
  taken : pool.taken <+: after.taken
  enqueued : pool.enqueued <+: after.enqueued

theorem Extends.trans {middle : Pool ρ} (first : Extends pool middle)
    (second : Extends middle after) : Extends pool after where
  started := second.started ∘ first.started
  taken := first.taken.trans second.taken
  enqueued := first.enqueued.trans second.enqueued

/-- The event may change the thread: it sleeps, or this is the event that it needs to go on. -/
def Touches (event : Event ρ) (t : Nat) (worker : Worker ρ) : Prop :=
  worker.isWaiting = true ∨ (worker.isReady = true ∧ ∃ succeeds, event = .lock t succeeds) ∨
    (∃ work, worker.place = .working work) ∧ event = .finish t

/-- What a step that touches some threads does to the pool. -/
structure Progress (touches : Nat → Worker ρ → Prop) (pool after : Pool ρ) : Prop extends
    Extends pool after where
  /-- No thread comes, and perhaps one leaves; or there is a new thread. -/
  dwindles : (after.threads.length = pool.threads.length ∧ after.nthreads ≤ pool.nthreads) ∨
    after.threads[pool.threads.length]? = some ⟨.created, false⟩
  /-- The entry of every other thread stays as it is. -/
  spares : ∀ t worker, pool.threads[t]? = some worker → ¬touches t worker →
    after.threads[t]? = some worker

namespace Progress

variable {touches : Nat → Worker ρ → Prop} {first taken enqueued : List ρ}

theorem same (puts : pool.enqueued <+: enqueued) :
    Progress touches pool { pool with first := first, enqueued := enqueued } :=
  ⟨⟨id, prefix_refl _, puts⟩, .inl ⟨rfl, le_rfl⟩, fun _ _ found _ => found⟩

/-- One thread that is touched changes its entry. -/
theorem set (found : pool.threads[t]? = some worker) (touched : touches t worker)
    (new : Worker ρ) {idleThreads nthreads : Int} (fewer : nthreads ≤ pool.nthreads)
    (takes : pool.taken <+: taken) (puts : pool.enqueued <+: enqueued) :
    Progress touches pool { pool with
      threads := pool.threads.set t new
      idleThreads := idleThreads
      nthreads := nthreads
      first := first
      taken := taken
      enqueued := enqueued } where
  started := id
  taken := takes
  enqueued := puts
  dwindles := .inl ⟨length_set, fewer⟩
  spares := by
    intro other entry here untouched
    refine (getElem?_set_ne ?_).trans here
    rintro rfl
    cases found.symm.trans here
    exact untouched touched

theorem moves (balanced : Balanced pool) (found : pool.threads[t]? = some worker)
    (touched : touches t worker) (moves : Moves pool t timedOut succeeds after) :
    Progress touches pool after := by
  cases moves with
  | sleeps => exact .set found touched _ le_rfl (prefix_refl _) (prefix_refl _)
  | waits => exact .set found touched _ le_rfl (prefix_refl _) (prefix_refl _)
  | takes work rest queue =>
    exact .set found touched _ le_rfl (prefix_append _ _) (prefix_refl _)
  | exits timedOut many idle =>
    rw [balanced.exit_eq many idle]
    exact .set found touched _ (Int.sub_le_self _ Int.one_nonneg) (prefix_refl _) (prefix_refl _)

theorem of_becomeIdle (found : pool.threads[t]? = some worker) (touched : touches t worker)
    (progress : Progress touches (pool.becomeIdle t timedOut) after) :
    Progress touches pool after where
  toExtends := ⟨progress.started, progress.taken, progress.enqueued⟩
  dwindles := by
    have threads := progress.dwindles
    simp only [Pool.becomeIdle, Pool.put, length_set] at threads
    exact threads
  spares := by
    have idle : Progress touches pool (pool.becomeIdle t timedOut) :=
      .set found touched _ le_rfl (prefix_refl _) (prefix_refl _)
    intro other entry here untouched
    exact progress.spares other entry (idle.spares other entry here untouched) untouched

theorem step (balanced : Balanced pool) (event : Event ρ) :
    Progress (Touches event) pool (step pool event) := by
  cases event with
  | enqueue work succeeds waiter =>
    change Progress _ pool (pool.enqueue work succeeds waiter)
    unfold Pool.enqueue
    dsimp only
    split_ifs with idle few
    · rcases wake_cases (pool.append work) waiter true with
        ⟨-, same⟩ | ⟨timed, timedOut, found, woken⟩
      · rw [same]
        exact .same (prefix_append _ _)
      · have found : pool.threads[waiter]? = some ⟨.waiting timed, timedOut⟩ := found
        rw [woken]
        exact .set found (.inl rfl) _ le_rfl (prefix_refl _) (prefix_append _ _)
    · cases succeeds with
      | false => exact .same (prefix_append _ _)
      | true =>
        refine ⟨⟨id, prefix_refl _, prefix_append _ _⟩, .inr ?_, ?_⟩
        · simp [Pool.createWorkThread, Pool.append]
        · intro t worker found _
          exact (getElem?_append_left (List.getElem?_eq_some_iff.1 found).1).trans found
    · exact .same (prefix_append _ _)
  | lock t succeeds =>
    change Progress _ pool (pool.lock t succeeds)
    rcases balanced.lock_cases t succeeds with
      same | ⟨worker, _, found, ready, balancedIdle, -, rfl | ⟨-, rfl⟩, moves⟩
    · rw [same]
      exact .same (prefix_refl _)
    · exact .moves balanced found (.inr (.inl ⟨ready, succeeds, rfl⟩)) moves
    · have self := getElem?_put found .unstarted worker.timedOut
      exact .of_becomeIdle found (.inr (.inl ⟨ready, succeeds, rfl⟩))
        (.moves balancedIdle self (.inr (.inl ⟨rfl, succeeds, rfl⟩)) moves)
  | wake t =>
    change Progress _ pool (pool.wake t false)
    rcases wake_cases pool t false with ⟨-, same⟩ | ⟨_, _, found, woken⟩
    · rw [same]
      exact .same (prefix_refl _)
    · rw [woken]
      exact .set found (.inl rfl) _ le_rfl (prefix_refl _) (prefix_refl _)
  | timeOut t =>
    change Progress _ pool (pool.timeOut t)
    rcases timeOut_cases pool t with same | ⟨_, found, expired⟩
    · rw [same]
      exact .same (prefix_refl _)
    · rw [expired]
      exact .set found (.inl rfl) _ le_rfl (prefix_refl _) (prefix_refl _)
  | finish t =>
    change Progress _ pool (pool.finish t)
    rcases finish_cases pool t with same | ⟨work, _, found, finished⟩
    · rw [same]
      exact .same (prefix_refl _)
    · rw [finished]
      exact .set found (.inr (.inr ⟨⟨work, rfl⟩, rfl⟩)) _ le_rfl (prefix_refl _) (prefix_refl _)
  | start =>
    exact ⟨⟨fun _ => rfl, prefix_refl _, prefix_refl _⟩, .inl ⟨rfl, le_rfl⟩,
      fun _ _ found _ => found⟩

end Progress

/-- A thread that waits for the mutex waits until it gets it. -/
theorem step_ready (balanced : Balanced pool) (found : pool.threads[t]? = some worker)
    (ready : worker.isReady = true) (other : ¬ ∃ succeeds, event = .lock t succeeds) :
    (step pool event).threads[t]? = some worker := by
  refine (Progress.step balanced event).spares t worker found ?_
  rcases worker with ⟨place, timedOut⟩
  rintro (waiting | ⟨-, locks⟩ | ⟨⟨work, rfl⟩, -⟩)
  · cases place <;> simp [Worker.isReady, Worker.isWaiting] at ready waiting
  · exact other locks
  · cases ready

/-- A thread that runs a request does so until the request returns. -/
theorem step_working (balanced : Balanced pool) {work : ρ}
    (found : pool.threads[t]? = some ⟨.working work, timedOut⟩) (other : event ≠ .finish t) :
    (step pool event).threads[t]? = some ⟨.working work, timedOut⟩ := by
  refine (Progress.step balanced event).spares t _ found ?_
  rintro (waiting | ⟨ready, -⟩ | ⟨-, finishes⟩)
  · cases waiting
  · cases ready
  · exact other finishes

/-- A thread of a started pool that gets the mutex while there is a request takes one, or
leaves because of an old time-out. -/
theorem lock_takes_or_exits (balanced : Balanced pool) (found : pool.threads[t]? = some worker)
    (ready : worker.isReady = true) (started : pool.started = true) (queue : pool.first ≠ [])
    (succeeds : Bool) :
    pool.taken.length < (pool.lock t succeeds).taken.length ∨
      worker.timedOut = true ∧ (pool.lock t succeeds).nthreads = pool.nthreads - 1 := by
  have outcome : ∀ {idle : Pool ρ}, Balanced idle → idle.started = true → idle.first ≠ [] →
      Moves idle t worker.timedOut succeeds (pool.lock t succeeds) →
      idle.taken.length < (pool.lock t succeeds).taken.length ∨
        worker.timedOut = true ∧ (pool.lock t succeeds).nthreads = idle.nthreads - 1 := by
    intro idle balanced started queue moves
    generalize pool.lock t succeeds = after at moves
    cases moves with
    | sleeps unstarted =>
      rw [started] at unstarted
      cases unstarted
    | waits _ empty => exact absurd empty queue
    | takes work rest => exact .inl (by simp [Pool.take])
    | exits timedOut many idle =>
      rw [balanced.exit_eq many idle]
      exact .inr ⟨timedOut, rfl⟩
  rcases lock_moves balanced.running found (balanced.begun_of_found found) ready succeeds with
    ⟨-, moves⟩ | ⟨busy, live, -, moves⟩
  · exact outcome balanced started queue moves
  · have own := outcome (balanced.becomeIdle found live busy worker.timedOut) started queue moves
    exact own

/-! ## Fair runs -/

/-- What is assumed of an infinite run: a signal wakes a sleeper if there is one, threads can be
created, the mutex is given to every thread that waits for it, every request returns, and the
pool is started at some time. -/
structure Fair (pool : Pool ρ) (events : Nat → Event ρ) : Prop where
  signals : ∀ n work succeeds waiter, events n = .enqueue work succeeds waiter →
    (∃ worker ∈ (stateAt step pool events n).threads, worker.isWaiting = true) →
    ∃ worker, (stateAt step pool events n).threads[waiter]? = some worker ∧
      worker.isWaiting = true
  creates : ∀ n, (∀ work succeeds waiter, events n = .enqueue work succeeds waiter →
    succeeds = true) ∧ ∀ t succeeds, events n = .lock t succeeds → succeeds = true
  locks : ∀ (n t : Nat) (worker : Worker ρ),
    (stateAt step pool events n).threads[t]? = some worker → worker.isReady = true →
    ∃ m, n ≤ m ∧ ∃ succeeds, events m = .lock t succeeds
  returns : ∀ (n t : Nat) (work : ρ) (timedOut : Bool),
    (stateAt step pool events n).threads[t]? = some ⟨.working work, timedOut⟩ →
    ∃ m, n ≤ m ∧ events m = .finish t
  started : ∃ n, (stateAt step pool events n).started = true

/-- Every step of a fair run keeps the pool alert. -/
theorem Alert.step (alert : Alert pool) (balanced : Balanced pool)
    (signals : ∀ work succeeds waiter, event = .enqueue work succeeds waiter →
      (∃ worker ∈ pool.threads, worker.isWaiting = true) →
      ∃ worker, pool.threads[waiter]? = some worker ∧ worker.isWaiting = true)
    (creates : ∀ work succeeds waiter, event = .enqueue work succeeds waiter → succeeds = true) :
    Alert (step pool event) := by
  cases event with
  | enqueue work succeeds waiter =>
    obtain rfl := creates work succeeds waiter rfl
    exact alert.enqueue balanced work (signals work true waiter rfl)
  | lock t succeeds => exact alert.lock balanced t succeeds
  | wake t => exact alert.wake t
  | timeOut t => exact alert.timeOut t
  | finish t => exact alert.finish t
  | start => exact alert.start

theorem alert_initializeThreadpool {minThreads maxThreads maxIdleTime : Int} {made : Nat}
    (initialized : Pool.initializeThreadpool minThreads maxThreads maxIdleTime made = some pool) :
    Alert pool := by
  unfold Pool.initializeThreadpool at initialized
  by_cases bad : minThreads > maxThreads ∨ maxThreads < 1
  · rw [if_pos bad] at initialized
    cases initialized
  rw [if_neg bad] at initialized
  cases initialized
  constructor
  · intro worker mem waiting
    obtain rfl := eq_of_mem_replicate mem
    cases waiting
  · intro worker mem keeps
    obtain rfl := eq_of_mem_replicate mem
    cases keeps
  · intro worker mem
    obtain rfl := eq_of_mem_replicate mem
    rintro (timedOut | place)
    · cases timedOut
    · cases place
  · exact fun nonempty => absurd rfl nonempty

section

variable {minThreads maxThreads maxIdleTime : Int} {made n m : Nat} (events : Nat → Event ρ)
  (initialized : Pool.initializeThreadpool minThreads maxThreads maxIdleTime made = some pool)

include initialized

theorem balanced_stateAt (n : Nat) : Balanced (stateAt step pool events n) := by
  rw [stateAt_eq_run]
  exact balanced_run initialized _

theorem extends_stateAt (later : n ≤ m) :
    Extends (stateAt step pool events n) (stateAt step pool events m) := by
  induction m, later using Nat.le_induction with
  | base => exact ⟨id, prefix_refl _, prefix_refl _⟩
  | succ m later ih =>
    exact ih.trans (Progress.step (balanced_stateAt events initialized m) (events m)).toExtends

variable {events} (fair : Fair pool events)

include fair

theorem alert_stateAt (n : Nat) : Alert (stateAt step pool events n) := by
  induction n with
  | zero => exact alert_initializeThreadpool initialized
  | succ n ih =>
    exact ih.step (balanced_stateAt events initialized n) (fair.signals n) (fair.creates n).1

/-- A thread that waits for the mutex gets it as it is. -/
theorem gets_mutex (found : (stateAt step pool events n).threads[t]? = some worker)
    (ready : worker.isReady = true) :
    ∃ m succeeds, n ≤ m ∧ (stateAt step pool events m).threads[t]? = some worker ∧
      stateAt step pool events (m + 1) = (stateAt step pool events m).lock t succeeds := by
  rcases meets (fun state : Pool ρ => state.threads[t]? = some worker)
      (fun event => ∃ succeeds, event = .lock t succeeds) found
      (fun m _ here other => step_ready (balanced_stateAt events initialized m) here ready other)
      (fair.locks n t worker found ready) with ⟨m, later, here, succeeds, event⟩
  refine ⟨m, succeeds, later, here, ?_⟩
  rw [stateAt, event, step]

/-- A thread that runs a request returns from it. -/
theorem gets_back {work : ρ}
    (found : (stateAt step pool events n).threads[t]? = some ⟨.working work, timedOut⟩) :
    ∃ m, n ≤ m ∧ (stateAt step pool events m).threads[t]? = some ⟨.returning, timedOut⟩ := by
  rcases meets (fun state : Pool ρ => state.threads[t]? = some ⟨.working work, timedOut⟩)
      (fun event => event = .finish t) found
      (fun m _ here other => step_working (balanced_stateAt events initialized m) here other)
      (fair.returns n t work timedOut found) with ⟨m, later, here, event⟩
  refine ⟨m + 1, Nat.le_succ_of_le later, ?_⟩
  rw [stateAt, event, step]
  unfold Pool.finish
  rw [here]
  exact getElem?_put here .returning timedOut

/-- Nothing is taken from some moment on, and the queue is not empty. -/
structure Stuck (pool : Pool ρ) (events : Nat → Event ρ) (n : Nat) : Prop where
  started : (stateAt step pool events n).started = true
  queue : (stateAt step pool events n).first ≠ []
  taken : ∀ m, n ≤ m → (stateAt step pool events m).taken.length ≤
    (stateAt step pool events n).taken.length

omit initialized fair in
theorem Stuck.later
    (initialized : Pool.initializeThreadpool minThreads maxThreads maxIdleTime made = some pool)
    (stuck : Stuck pool events n) (later : n ≤ m) : Stuck pool events m := by
  have extended := extends_stateAt events initialized later
  have same : (stateAt step pool events m).taken.length =
      (stateAt step pool events n).taken.length :=
    le_antisymm (stuck.taken m later) extended.taken.length_le
  constructor
  · exact extended.started stuck.started
  · -- as much is taken as before, and no less has been put into the queue
    have before := balanced_stateAt events initialized n
    have now := balanced_stateAt events initialized m
    have longer := extended.enqueued.length_le
    rw [before.order, now.order, length_append, length_append, same] at longer
    exact length_pos_iff.1 (lt_of_lt_of_le (length_pos_iff.2 stuck.queue)
      (Nat.le_of_add_le_add_left longer))
  · intro k after
    rw [same]
    exact stuck.taken k (later.trans after)

/-- Every thread that waits for the mutex of a stuck pool leaves the pool. -/
theorem Stuck.leaves (stuck : Stuck pool events n)
    (found : (stateAt step pool events n).threads[t]? = some worker)
    (ready : worker.isReady = true) :
    worker.timedOut = true ∧ ∃ m, n ≤ m ∧ (stateAt step pool events (m + 1)).nthreads =
      (stateAt step pool events m).nthreads - 1 := by
  rcases gets_mutex initialized fair found ready with ⟨m, succeeds, later, here, next⟩
  have still := stuck.later initialized later
  have balanced := balanced_stateAt events initialized m
  rcases lock_takes_or_exits balanced here ready still.started still.queue succeeds with
    takes | ⟨timedOut, exits⟩
  · rw [← next] at takes
    exact absurd takes (not_lt.2 (still.taken (m + 1) m.le_succ))
  · rw [← next] at exits
    exact ⟨timedOut, m, later, exits⟩

/-- A stuck pool gets no new thread: a new thread would take a request. -/
theorem Stuck.nthreads_le (stuck : Stuck pool events n) (later : n ≤ m) :
    (stateAt step pool events m).nthreads ≤ (stateAt step pool events n).nthreads := by
  induction m, later using Nat.le_induction with
  | base => exact le_rfl
  | succ m later ih =>
    have balanced := balanced_stateAt events initialized m
    rcases (Progress.step balanced (events m)).dwindles with ⟨-, fewer⟩ | created
    · exact fewer.trans ih
    · have still := stuck.later initialized (Nat.le_succ_of_le later)
      have old := (still.leaves initialized fair created rfl).1
      cases old

/-- No pool is stuck, by induction on its number of threads. -/
theorem not_stuck (bound n : Nat) (few : (stateAt step pool events n).nthreads ≤ bound) :
    ¬ Stuck pool events n := by
  induction bound generalizing n with
  | zero =>
    intro stuck
    have staffed := (alert_stateAt initialized fair n).staffed stuck.queue
    exact absurd few (not_le.2 staffed)
  | succ bound ih =>
    intro stuck
    have balanced := balanced_stateAt events initialized n
    -- a thread that does not sleep comes to wait for the mutex, and leaves
    have waits : ∃ (m t : Nat) (worker : Worker ρ), n ≤ m ∧
        (stateAt step pool events m).threads[t]? = some worker ∧ worker.isReady = true := by
      rcases (alert_stateAt initialized fair n).exists_active balanced stuck.queue with
        ⟨t, worker, found, ready | ⟨work, place⟩⟩
      · exact ⟨n, t, worker, le_rfl, found, ready⟩
      · rcases worker with ⟨_, timedOut⟩
        cases place
        rcases gets_back initialized fair found with ⟨m, later, returned⟩
        exact ⟨m, t, _, later, returned, rfl⟩
    rcases waits with ⟨m, t, worker, later, found, ready⟩
    have still := stuck.later initialized later
    rcases (still.leaves initialized fair found ready).2 with ⟨k, after, exits⟩
    have fewer := stuck.nthreads_le initialized fair (later.trans after)
    refine ih (k + 1) ?_ (stuck.later initialized (Nat.le_succ_of_le (later.trans after)))
    omega

/-- A started pool with a request takes one. -/
theorem takes_next (started : (stateAt step pool events n).started = true)
    (queue : (stateAt step pool events n).first ≠ []) :
    ∃ m, n ≤ m ∧ (stateAt step pool events n).taken.length <
      (stateAt step pool events m).taken.length := by
  by_contra never
  refine not_stuck initialized fair (stateAt step pool events n).nthreads.toNat n
    (Int.self_le_toNat _) ⟨started, queue, ?_⟩
  intro m later
  exact not_lt.1 fun takes => never ⟨m, later, takes⟩

/-- A request is taken once all requests before it have been taken. -/
theorem taken_eventually {k : Nat} (started : (stateAt step pool events n).started = true)
    (enqueued : k < (stateAt step pool events n).enqueued.length) :
    ∃ m, n ≤ m ∧ k < (stateAt step pool events m).taken.length := by
  induction missing : k + 1 - (stateAt step pool events n).taken.length using Nat.strong_induction_on
    generalizing n with
  | _ missing ih =>
    by_cases done : k < (stateAt step pool events n).taken.length
    · exact ⟨n, le_rfl, done⟩
    have balanced := balanced_stateAt events initialized n
    have queue : (stateAt step pool events n).first ≠ [] := by
      intro empty
      rw [balanced.order, empty, append_nil] at enqueued
      exact done enqueued
    rcases takes_next initialized fair started queue with ⟨m, later, takes⟩
    have extended := extends_stateAt events initialized later
    rcases ih _ (by omega) (extended.started started)
        (enqueued.trans_le extended.enqueued.length_le) rfl with ⟨l, after, taken⟩
    exact ⟨l, later.trans after, taken⟩

/-- Every request is run, the one that was put into the queue as the `k`-th as the `k`-th. -/
theorem runs_eventually {k : Nat} {work : ρ}
    (enqueued : (stateAt step pool events n).enqueued[k]? = some work) :
    ∃ m, n ≤ m ∧ (stateAt step pool events m).taken[k]? = some work := by
  rcases fair.started with ⟨start, started⟩
  have behind := extends_stateAt events initialized (le_max_left n start)
  have begun := extends_stateAt events initialized (le_max_right n start)
  have early := (List.getElem?_eq_some_iff.1 enqueued).1
  rcases taken_eventually initialized fair (begun.started started)
      (early.trans_le behind.enqueued.length_le) with ⟨m, later, taken⟩
  have extended := extends_stateAt events initialized ((le_max_left n start).trans later)
  have balanced := balanced_stateAt events initialized m
  refine ⟨m, (le_max_left n start).trans later, ?_⟩
  calc
    (stateAt step pool events m).taken[k]? = (stateAt step pool events m).enqueued[k]? := by
      rw [balanced.order, getElem?_append_left taken]
    _ = (stateAt step pool events n).enqueued[k]? := by
      rcases extended.enqueued with ⟨rest, longer⟩
      rw [← longer, getElem?_append_left early]
    _ = some work := enqueued

end

/-- In every state that a pool reaches the requests are taken in order, each at most once, and
the counters of threads are right and bounded; and in every fair run every request is run. -/
theorem requests_run_in_order {minThreads maxThreads maxIdleTime : Int} {made : Nat}
    (initialized : Pool.initializeThreadpool minThreads maxThreads maxIdleTime made = some pool) :
    (∀ events : List (Event ρ), Balanced (run step pool events)) ∧
      ∀ events : Nat → Event ρ, Fair pool events →
        ∀ (n k : Nat) (work : ρ), (stateAt step pool events n).enqueued[k]? = some work →
          ∃ m, n ≤ m ∧ (stateAt step pool events m).taken[k]? = some work := by
  constructor
  · exact balanced_run initialized
  · intro events fair n k work enqueued
    exact runs_eventually initialized fair enqueued

/-- A static pool with one thread. -/
def onePool : Pool Nat :=
  { first := [], nthreads := 1, idleThreads := 0, minThreads := 1, maxThreads := 1,
    maxIdleSecs := -1, destroy := false, started := false, threads := [⟨.created, false⟩],
    enqueued := [], taken := [] }

/-- It gets two requests, runs them, and sleeps for ever. -/
def twoRequests : Nat → Event Nat
  | 0 => .enqueue 7 true 0
  | 1 => .start
  | 2 => .enqueue 8 true 0
  | 3 => .lock 0 true
  | 4 => .finish 0
  | 5 => .lock 0 true
  | 6 => .finish 0
  | 7 => .lock 0 true
  | _ => .start

/-- The pool in the end. -/
def oneSleeper : Pool Nat :=
  { onePool with
    idleThreads := 1, started := true, threads := [⟨.waiting false, false⟩],
    enqueued := [7, 8], taken := [7, 8] }

theorem stateAt_twoRequests (n : Nat) :
    stateAt step onePool twoRequests (n + 8) = oneSleeper := by
  induction n with
  | zero => decide
  | succ n ih =>
    change step (stateAt step onePool twoRequests (n + 8)) .start = oneSleeper
    rw [ih]
    rfl

/-- There is no second thread. -/
theorem threads_twoRequests (n t : Nat) :
    (stateAt step onePool twoRequests n).threads[t + 1]? = none := by
  match n with
  | 0 | 1 | 2 | 3 | 4 | 5 | 6 | 7 => rfl
  | n + 8 =>
    rw [stateAt_twoRequests]
    rfl

theorem fair_twoRequests : Fair onePool twoRequests where
  signals := by
    intro n work succeeds waiter event
    match n with
    | 0 | 2 => exact fun waiting => absurd waiting (by decide)
    | 1 | 3 | 4 | 5 | 6 | 7 | n + 8 => cases event
  creates := by
    intro n
    match n with
    | 0 | 2 =>
      constructor
      · rintro _ _ _ ⟨⟩
        rfl
      · rintro _ _ ⟨⟩
    | 3 | 5 | 7 =>
      constructor
      · rintro _ _ _ ⟨⟩
      · rintro _ _ ⟨⟩
        rfl
    | 1 | 4 | 6 | n + 8 =>
      constructor
      · rintro _ _ _ ⟨⟩
      · rintro _ _ ⟨⟩
  locks := by
    intro n t worker found ready
    match t, n with
    | 0, 0 | 0, 1 | 0, 2 | 0, 3 => exact ⟨3, by decide, true, rfl⟩
    | 0, 5 => exact ⟨5, by decide, true, rfl⟩
    | 0, 7 => exact ⟨7, by decide, true, rfl⟩
    | 0, 4 | 0, 6 => cases found; cases ready
    | 0, n + 8 =>
      rw [stateAt_twoRequests] at found
      cases found
      cases ready
    | t + 1, n =>
      rw [threads_twoRequests] at found
      cases found
  returns := by
    intro n t work timedOut found
    match t, n with
    | 0, 0 | 0, 1 | 0, 2 | 0, 3 | 0, 5 | 0, 7 => cases found
    | 0, 4 => exact ⟨4, by decide, rfl⟩
    | 0, 6 => exact ⟨6, by decide, rfl⟩
    | 0, n + 8 =>
      rw [stateAt_twoRequests] at found
      cases found
    | t + 1, n =>
      rw [threads_twoRequests] at found
      cases found
  started := ⟨2, rfl⟩

/-- Both requests are run, the one that came first as the first. -/
theorem requests_run_in_order_two :
    Balanced (stateAt step onePool twoRequests 6) ∧
      (∃ m, 3 ≤ m ∧ (stateAt step onePool twoRequests m).taken[0]? = some 7) ∧
      ∃ m, 3 ≤ m ∧ (stateAt step onePool twoRequests m).taken[1]? = some 8 := by
  have initialized : Pool.initializeThreadpool 1 1 (-1) 1 = some onePool := rfl
  obtain ⟨balanced, runs⟩ := requests_run_in_order initialized
  refine ⟨?_, ?_, ?_⟩
  · exact balanced [.enqueue 7 true 0, .start, .enqueue 8 true 0, .lock 0 true, .finish 0,
      .lock 0 true]
  · exact runs twoRequests fair_twoRequests 3 0 7 rfl
  · exact runs twoRequests fair_twoRequests 3 1 8 rfl

end Torque.ThreadPool
