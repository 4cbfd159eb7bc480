import Torque.ThreadPool.Balance

/-!
# No wake-up is lost

A thread goes to sleep only while the queue is empty, and every request that comes while some
thread sleeps wakes one.  So as long as a thread sleeps there are at least as many signalled
threads as requests, and a signalled thread never leaves the pool.  If threads can be created,
a pool with a request in its queue has a thread, and one that does not sleep.
-/

namespace Torque.ThreadPool

open Torque.Structure List

universe u

variable {ρ : Type u} {pool after : Pool ρ} {t : Nat} {worker : Worker ρ}

/-- The thread has its code from an earlier wait, and no wait will change it before the thread
looks at it. -/
def Worker.keepsCode (worker : Worker ρ) : Bool :=
  match worker.place with
  | .waiting timed => !timed
  | .woken _ => true
  | _ => false

/-- The sleepers and the requests of a pool. -/
structure Alert (pool : Pool ρ) : Prop where
  /-- Sleepers leave no request unnoticed. -/
  signalled : ∀ worker ∈ pool.threads, worker.isWaiting = true →
    pool.first.length ≤ pool.threads.countP Worker.isSignalled
  /-- An old time-out does not make a woken thread leave. -/
  patient : ∀ worker ∈ pool.threads, worker.keepsCode = true → worker.timedOut = true →
    pool.nthreads ≤ pool.minThreads
  /-- Only a pool with a limit for idle threads has time-outs. -/
  timed : ∀ worker ∈ pool.threads, worker.timedOut = true ∨ worker.place = .waiting true →
    0 ≤ pool.maxIdleSecs
  /-- A request has a thread. -/
  staffed : pool.first ≠ [] → 0 < pool.nthreads

theorem Balanced.idle_le (balanced : Balanced pool) : pool.idleThreads ≤ pool.nthreads := by
  rw [balanced.idle, balanced.threads]
  exact Int.ofNat_le.2 (countP_mono_left fun worker _ => isLive_of_isIdle)

theorem Balanced.busy (balanced : Balanced pool) (none_ : ¬ pool.idleThreads > 0) :
    ∀ worker ∈ pool.threads, worker.isIdle = false := by
  rw [balanced.idle] at none_
  intro worker mem
  have zero : pool.threads.countP Worker.isIdle = 0 := by omega
  simpa using countP_eq_zero.1 zero worker mem

theorem isIdle_of_isWaiting (waiting : worker.isWaiting = true) : worker.isIdle = true := by
  rcases worker with ⟨place, timedOut⟩
  cases place <;> first | rfl | exact waiting

theorem isIdle_of_keepsCode (keeps : worker.keepsCode = true) : worker.isIdle = true := by
  rcases worker with ⟨place, timedOut⟩
  cases place <;> first | rfl | exact keeps

theorem hasWaited_of_isSignalled (signalled : worker.isSignalled = true) :
    worker.hasWaited = true := by
  rcases worker with ⟨place, timedOut⟩
  cases place <;> first | rfl | exact signalled

theorem keepsCode_of_isSignalled (signalled : worker.isSignalled = true) :
    worker.keepsCode = true := by
  rcases worker with ⟨place, timedOut⟩
  cases place <;> first | rfl | cases signalled

/-- A thread with an old time-out leaves no thread below the minimum behind, so none is
created in its place. -/
theorem Balanced.exit_eq (balanced : Balanced pool) (many : pool.nthreads > pool.minThreads)
    (idle : pool.idleThreads > 2) (t : Nat) (timedOut succeeds : Bool) :
    pool.exit t timedOut succeeds =
      { pool.put t .exited timedOut with
        idleThreads := pool.idleThreads - 1
        nthreads := pool.nthreads - 1 } := by
  have le := balanced.idle_le
  unfold Pool.exit Pool.workThreadCleanup Pool.put
  dsimp only
  rw [if_neg (by simpa using balanced.running), if_neg (by omega), if_neg (by omega)]

namespace Alert

variable (alert : Alert pool) {timed timedOut : Bool}
include alert

/-- The entry of a thread changes, and it is not a signalled thread that goes to sleep
again or does something else. -/
theorem set (found : pool.threads[t]? = some worker) {new : Worker ρ}
    (sleeps : new.isWaiting = true → pool.first = [])
    (signalled : worker.isSignalled = true → pool.first ≠ [] → new.isSignalled = true)
    (patient : new.keepsCode = true → new.timedOut = true → pool.nthreads ≤ pool.minThreads)
    (timed : new.timedOut = true ∨ new.place = .waiting true → 0 ≤ pool.maxIdleSecs) :
    Alert { pool with threads := pool.threads.set t new } where
  signalled := by
    intro other mem waiting
    by_cases empty : pool.first = []
    · simp [empty]
    have count := countP_set_add Worker.isSignalled new found
    have more : worker.isSignalled.toNat ≤ new.isSignalled.toNat := by
      cases old : worker.isSignalled with
      | false => exact Nat.zero_le _
      | true => rw [signalled old empty]
    rcases mem_or_eq_of_mem_set mem with old | rfl
    · have enough := alert.signalled other old waiting
      dsimp only
      omega
    · exact absurd (sleeps waiting) empty
  patient := forall_mem_set alert.patient patient t
  timed := forall_mem_set alert.timed timed t
  staffed := alert.staffed

/-- The count of idle threads has no part in it. -/
theorem setIdle (idleThreads : Int) : Alert { pool with idleThreads := idleThreads } :=
  ⟨alert.signalled, alert.patient, alert.timed, alert.staffed⟩

theorem fewer {nthreads : Int} (fewer : nthreads ≤ pool.nthreads) (staffed : 0 < nthreads) :
    Alert { pool with nthreads := nthreads } where
  signalled := alert.signalled
  patient worker mem keeps timedOut := fewer.trans (alert.patient worker mem keeps timedOut)
  timed := alert.timed
  staffed _ := staffed

/-- A thread that was not signalled goes on, and does not wait. -/
theorem goesOn (found : pool.threads[t]? = some worker) {place : Place ρ}
    (awake : (⟨place, worker.timedOut⟩ : Worker ρ).isWaiting = false)
    (lost : (⟨place, worker.timedOut⟩ : Worker ρ).keepsCode = false)
    (unsignalled : worker.isSignalled = false) : Alert (pool.put t place worker.timedOut) := by
  apply alert.set found
  · exact fun waiting => absurd (awake.symm.trans waiting) Bool.false_ne_true
  · exact fun signalled => absurd (unsignalled.symm.trans signalled) Bool.false_ne_true
  · exact fun keeps => absurd (lost.symm.trans keeps) Bool.false_ne_true
  · rintro (timedOut | rfl)
    · exact alert.timed worker (mem_of_getElem? found) (.inl timedOut)
    · cases awake

theorem becomeIdle (found : pool.threads[t]? = some worker)
    (unsignalled : worker.isSignalled = false) : Alert (pool.becomeIdle t worker.timedOut) :=
  (alert.goesOn found rfl rfl unsignalled).setIdle _

/-- A request is taken, by a signalled thread or by another. -/
theorem take (found : pool.threads[t]? = some worker) {work : ρ} {rest : List ρ}
    (queue : pool.first = work :: rest) :
    Alert (pool.take t worker.timedOut work rest) where
  signalled := by
    intro other mem waiting
    have count := countP_set_add Worker.isSignalled ⟨.working work, worker.timedOut⟩ found
    have most := Bool.toNat_le worker.isSignalled
    rcases mem_or_eq_of_mem_set mem with old | rfl
    · have enough := alert.signalled other old waiting
      rw [queue, length_cons] at enough
      change rest.length ≤ (pool.threads.set t _).countP Worker.isSignalled
      omega
    · cases waiting
  patient := forall_mem_set alert.patient (fun keeps => by cases keeps) t
  timed := by
    refine forall_mem_set alert.timed ?_ t
    rintro (timedOut | place)
    · exact alert.timed worker (mem_of_getElem? found) (.inl timedOut)
    · cases place
  staffed _ := alert.staffed (by simp [queue])

/-- Whatever an idle thread does with the mutex. -/
theorem moves (balanced : Balanced pool) (found : pool.threads[t]? = some worker) {succeeds : Bool}
    (moves : Moves pool t worker.timedOut succeeds after) : Alert after := by
  have mem := mem_of_getElem? found
  have own : worker.timedOut = true → 0 ≤ pool.maxIdleSecs := fun timedOut =>
    alert.timed worker mem (.inl timedOut)
  cases moves with
  | sleeps unstarted =>
    apply alert.goesOn found rfl rfl
    rw [← Bool.not_eq_true]
    intro signalled
    have started := balanced.begun worker mem (hasWaited_of_isSignalled signalled)
    rw [unstarted] at started
    cases started
  | waits started empty =>
    apply alert.set found
    · exact fun _ => empty
    · exact fun _ nonempty => absurd empty nonempty
    · intro keeps timedOut
      -- an untimed wait: the pool is at its minimum, for a static pool has no time-outs
      have untimed : pool.nthreads ≤ pool.minThreads ∨ pool.maxIdleSecs < 0 := by
        simpa [Worker.keepsCode] using keeps
      rcases untimed with few | static
      · exact few
      · exact absurd (own timedOut) (not_le.2 static)
    · rintro (timedOut | place)
      · exact own timedOut
      · have timed : ¬ (pool.nthreads ≤ pool.minThreads ∨ pool.maxIdleSecs < 0) := by
          simpa using place
        exact not_lt.1 fun static => timed (.inr static)
  | takes work rest queue => exact alert.take found queue
  | exits timedOut many idle =>
    have le := balanced.idle_le
    have stays : worker.isSignalled = false := by
      rw [← Bool.not_eq_true]
      intro signalled
      have few := alert.patient worker mem (keepsCode_of_isSignalled signalled) timedOut
      exact absurd many (not_lt.2 few)
    have left : Alert (pool.put t .exited worker.timedOut) := alert.goesOn found rfl rfl stays
    have staffed : 0 < pool.nthreads - 1 := by omega
    rw [balanced.exit_eq many idle]
    exact (left.setIdle (pool.idleThreads - 1)).fewer (Int.sub_le_self _ Int.one_nonneg) staffed

theorem lock (balanced : Balanced pool) (t : Nat) (succeeds : Bool) :
    Alert (pool.lock t succeeds) := by
  rcases balanced.lock_cases t succeeds with
    same | ⟨worker, _, found, -, balancedIdle, -, rfl | ⟨unsignalled, rfl⟩, moves⟩
  · rw [same]
    exact alert
  · exact alert.moves balanced found moves
  · exact (alert.becomeIdle found unsignalled).moves balancedIdle
      (getElem?_put found .unstarted worker.timedOut) moves

/-- What a woken thread remembers of its wait. -/
theorem patient_woken (found : pool.threads[t]? = some ⟨.waiting timed, timedOut⟩)
    (kept : (timedOut && !timed) = true) :
    pool.nthreads ≤ pool.minThreads ∧ 0 ≤ pool.maxIdleSecs := by
  rw [Bool.and_eq_true] at kept
  have mem := mem_of_getElem? found
  exact ⟨alert.patient _ mem kept.2 kept.1, alert.timed _ mem (.inl kept.1)⟩

/-- A sleeper wakes for no reason. -/
theorem wake (t : Nat) : Alert (pool.wake t false) := by
  rcases wake_cases pool t false with ⟨-, same⟩ | ⟨timed, timedOut, found, woken⟩
  · rw [same]
    exact alert
  rw [woken]
  apply alert.set found
  · intro waiting
    cases waiting
  · intro signalled
    cases signalled
  · exact fun _ kept => (alert.patient_woken found kept).1
  · rintro (kept | place)
    · exact (alert.patient_woken found kept).2
    · cases place

theorem timeOut (t : Nat) : Alert (pool.timeOut t) := by
  rcases timeOut_cases pool t with same | ⟨timedOut, found, expired⟩
  · rw [same]
    exact alert
  rw [expired]
  apply alert.set found
  · intro waiting
    cases waiting
  · intro signalled
    cases signalled
  · intro keeps
    cases keeps
  · exact fun _ => alert.timed _ (mem_of_getElem? found) (.inr rfl)

theorem finish (t : Nat) : Alert (pool.finish t) := by
  rcases finish_cases pool t with same | ⟨work, timedOut, found, finished⟩
  · rw [same]
    exact alert
  rw [finished]
  exact alert.goesOn found rfl rfl rfl

theorem start : Alert pool.start :=
  ⟨alert.signalled, alert.patient, alert.timed, alert.staffed⟩

/-- A request that finds a sleeper wakes one. -/
theorem append_wake (staffed : 0 < pool.nthreads) (work : ρ)
    (found : pool.threads[t]? = some ⟨.waiting timed, timedOut⟩) :
    Alert ((pool.append work).put t (.woken true) (timedOut && !timed)) where
  signalled := by
    intro other mem waiting
    have count := countP_set_add Worker.isSignalled ⟨.woken true, timedOut && !timed⟩ found
    have enough := alert.signalled _ (mem_of_getElem? found) rfl
    change (pool.first ++ [work]).length ≤ (pool.threads.set t _).countP Worker.isSignalled
    simp only [Worker.isSignalled, Bool.toNat_true, Bool.toNat_false] at count
    rw [length_append, length_singleton]
    omega
  patient := forall_mem_set alert.patient (fun _ kept => (alert.patient_woken found kept).1) t
  timed := by
    refine forall_mem_set alert.timed ?_ t
    rintro (kept | place)
    · exact (alert.patient_woken found kept).2
    · cases place
  staffed _ := staffed

theorem append (staffed : 0 < pool.nthreads)
    (awake : ∀ worker ∈ pool.threads, worker.isWaiting = false) (work : ρ) :
    Alert (pool.append work) where
  signalled := by
    intro worker mem waiting
    rw [awake worker mem] at waiting
    cases waiting
  patient := alert.patient
  timed := alert.timed
  staffed _ := staffed

/-- A request that finds no idle thread makes one. -/
theorem append_createWorkThread (busy : ∀ worker ∈ pool.threads, worker.isIdle = false)
    (counted : 0 ≤ pool.nthreads) (work : ρ) :
    Alert ((pool.append work).createWorkThread true) where
  signalled := by
    refine forall_mem_append.2 ⟨fun worker old waiting => ?_, forall_mem_singleton.2 nofun⟩
    have idle := isIdle_of_isWaiting waiting
    rw [busy worker old] at idle
    cases idle
  patient := by
    refine forall_mem_append.2 ⟨fun worker old keeps => ?_, forall_mem_singleton.2 nofun⟩
    have idle := isIdle_of_keepsCode keeps
    rw [busy worker old] at idle
    cases idle
  timed := by
    refine forall_mem_append.2 ⟨alert.timed, forall_mem_singleton.2 ?_⟩
    rintro (timedOut | place)
    · cases timedOut
    · cases place
  staffed _ := Int.lt_add_one_of_le counted

/-- A request wakes a sleeper if there is one. -/
theorem enqueue (balanced : Balanced pool) (work : ρ) {waiter : Nat}
    (signals : (∃ worker ∈ pool.threads, worker.isWaiting = true) →
      ∃ worker, pool.threads[waiter]? = some worker ∧ worker.isWaiting = true) :
    Alert (pool.enqueue work true waiter) := by
  have le := balanced.idle_le
  unfold Pool.enqueue
  by_cases idle : (pool.append work).idleThreads > 0
  · rw [if_pos idle]
    have staffed : 0 < pool.nthreads := lt_of_lt_of_le idle le
    rcases wake_cases (pool.append work) waiter true with
      ⟨unwaiting, same⟩ | ⟨timed, timedOut, found, woken⟩
    · rw [same]
      refine alert.append staffed (fun worker mem => Bool.eq_false_iff.2 fun waiting => ?_) work
      -- a sleeper would have been the one to wake
      rcases signals ⟨worker, mem, waiting⟩ with ⟨sleeper, found, sleeps⟩
      rw [unwaiting sleeper found] at sleeps
      cases sleeps
    · rw [woken]
      exact alert.append_wake staffed work found
  · rw [if_neg idle]
    have busy := balanced.busy idle
    by_cases few : (pool.append work).nthreads < (pool.append work).maxThreads
    · rw [if_pos few]
      have counted : 0 ≤ pool.nthreads := by simp [balanced.threads]
      exact alert.append_createWorkThread busy counted work
    · rw [if_neg few]
      have room := balanced.room
      have staffed : 0 < pool.nthreads := lt_of_lt_of_le Int.one_pos (room.trans (not_lt.1 few))
      refine alert.append staffed (fun worker mem => Bool.eq_false_iff.2 fun waiting => ?_) work
      have idle := isIdle_of_isWaiting waiting
      rw [busy worker mem] at idle
      cases idle

end Alert

/-- Some thread of a pool with a request runs, or can go on. -/
theorem Alert.exists_active (alert : Alert pool) (balanced : Balanced pool)
    (nonempty : pool.first ≠ []) :
    ∃ (t : Nat) (worker : Worker ρ), pool.threads[t]? = some worker ∧
      (worker.isReady = true ∨ ∃ work, worker.place = .working work) := by
  by_cases sleeper : ∃ worker ∈ pool.threads, worker.isWaiting = true
  · -- the signalled threads are as many as the requests
    rcases sleeper with ⟨sleeper, mem, waiting⟩
    have enough := alert.signalled sleeper mem waiting
    have some_ : 0 < pool.threads.countP Worker.isSignalled :=
      lt_of_lt_of_le (length_pos_iff.2 nonempty) enough
    rcases countP_pos_iff.1 some_ with ⟨worker, mem, signalled⟩
    rcases getElem?_of_mem mem with ⟨t, found⟩
    refine ⟨t, worker, found, .inl ?_⟩
    rcases worker with ⟨place, timedOut⟩
    cases place <;> first | rfl | cases signalled
  · -- no thread sleeps, and there is one
    have staffed := alert.staffed nonempty
    rw [balanced.threads] at staffed
    rcases countP_pos_iff.1 (Int.natCast_pos.1 staffed) with ⟨worker, mem, live⟩
    rcases getElem?_of_mem mem with ⟨t, found⟩
    refine ⟨t, worker, found, ?_⟩
    rcases worker with ⟨place, timedOut⟩
    cases place with
    | waiting timed => exact absurd ⟨_, mem, rfl⟩ sleeper
    | working work => exact .inr ⟨work, rfl⟩
    | exited => cases live
    | _ => exact .inl rfl

end Torque.ThreadPool
