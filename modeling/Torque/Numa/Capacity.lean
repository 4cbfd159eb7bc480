import Torque.Numa.Chip

/-!
# How many tasks fit on a chip

For each resource that a task asks for, what the chip has left divided by what the task wants
is a bound on the number of tasks.  `how_many_tasks_fit` is meant to be the least of these, and
a task fits if all of them are at least 1.

The bound of the MICs is taken up by a comparison with the MICs of one task in place of that
bound, and a chip that is used exclusively fits no task, whatever it has left.  A task that
wants all execution slots asks for -1 of them: the quotient is then not positive, and
`task_will_fit` has nothing against the task.
-/

namespace Torque.Numa

/-- The quotients of what is there and what one task wants, where it wants something. -/
def shares (wants : List (Int × Int)) : Set ℚ :=
  {share | ∃ want ∈ wants, 0 < want.2 ∧ share = want.1 / want.2}

variable {want : Int × Int}

theorem shares_cons_of_pos (pos : 0 < want.2) (wants : List (Int × Int)) :
    shares (want :: wants) = insert (want.1 / want.2 : ℚ) (shares wants) := by
  ext share
  simp [shares, pos]

theorem shares_cons_of_nonpos (none : ¬ 0 < want.2)
    (wants : List (Int × Int)) : shares (want :: wants) = shares wants := by
  ext share
  simp [shares, none]

theorem one_le_shares_iff {wants : List (Int × Int)} (left : ∀ want ∈ wants, 0 ≤ want.1) :
    (∀ share ∈ shares wants, 1 ≤ share) ↔ ∀ want ∈ wants, want.2 ≤ want.1 := by
  constructor
  · intro least want mem
    rcases lt_or_ge 0 want.2 with pos | nonpos
    · have one := least _ ⟨want, mem, pos, rfl⟩
      rw [one_le_div (Int.cast_pos.2 pos)] at one
      exact Int.cast_le.1 one
    · exact nonpos.trans (left want mem)
  · rintro fits share ⟨want, mem, pos, rfl⟩
    rw [one_le_div (Int.cast_pos.2 pos)]
    exact Int.cast_le.2 (fits want mem)

namespace Chip

variable {chip : Chip} {r : Req} {placeType : PlaceType}

/-- The processors that are counted for the task. -/
def cpusLeft (chip : Chip) (r : Req) (placeType : PlaceType) : Int :=
  if r.useCores ∨ placeType = .legacy then chip.freeCoreCount else chip.availableThreads

/-- What there is of GPUs and memory, and what a task wants of it. -/
def wantsButMics (chip : Chip) (r : Req) : List (Int × Int) :=
  [(chip.availableGpus, r.gpus), (chip.availableMemory, r.memory)]

/-- What there is of MICs, GPUs and memory, and what a task wants of it. -/
def wants (chip : Chip) (r : Req) : List (Int × Int) :=
  (chip.availableMics, r.mics) :: chip.wantsButMics r

/-- The quotient of the processors, which is always taken, and those of what the task wants. -/
def bounds (chip : Chip) (r : Req) (placeType : PlaceType) (wants : List (Int × Int)) : Set ℚ :=
  insert (chip.cpusLeft r placeType / r.maxCpus : ℚ) (shares wants)

theorem bounds_cons_of_pos {want : Int × Int} (pos : 0 < want.2) (wants : List (Int × Int)) :
    chip.bounds r placeType (want :: wants) =
      insert (want.1 / want.2 : ℚ) (chip.bounds r placeType wants) := by
  rw [bounds, shares_cons_of_pos pos, Set.insert_comm, bounds]

theorem bounds_cons_of_nonpos {want : Int × Int} (none : ¬ 0 < want.2) (wants : List (Int × Int)) :
    chip.bounds r placeType (want :: wants) = chip.bounds r placeType wants := by
  rw [bounds, shares_cons_of_nonpos none, bounds]

theorem taskWillFit_iff : chip.taskWillFit r placeType = true ↔
    r.maxCpus ≤ chip.cpusLeft r placeType ∧ ∀ want ∈ chip.wants r, want.2 ≤ want.1 := by
  simp only [taskWillFit, decide_eq_true_eq, wants, wantsButMics, cpusLeft, List.forall_mem_cons]
  split_ifs <;> simp <;> tauto

theorem atMost_eq_min (tasks bound : ℚ) : atMost tasks bound = min tasks bound := by
  by_cases less : bound < tasks
  · exact (if_pos (decide_eq_true less)).trans (min_eq_right less.le).symm
  · exact (if_neg fun is => less (of_decide_eq_true is)).trans (min_eq_left (not_lt.1 less)).symm

theorem cpuTasks_eq :
    (chip.cpuTasks r placeType : ℚ) = chip.cpusLeft r placeType / r.maxCpus := by
  unfold cpuTasks cpusLeft
  split_ifs <;> rfl

/-- Up to the MICs the bounds are taken as they are meant. -/
theorem isLeast_gpuTasks :
    IsLeast (chip.bounds r placeType (chip.wantsButMics r))
      (chip.gpuTasks r (chip.memTasks r (chip.cpuTasks r placeType))) := by
  have cpus : IsLeast (chip.bounds r placeType []) (chip.cpuTasks r placeType : ℚ) := by
    have empty : shares [] = ∅ := by simp [shares]
    rw [cpuTasks_eq, bounds, empty, insert_empty_eq]
    exact isLeast_singleton
  have memory : IsLeast (chip.bounds r placeType (chip.wantsButMics r).tail)
      (chip.memTasks r (chip.cpuTasks r placeType) : ℚ) := by
    by_cases zero : r.memory = 0
    · rw [memTasks, if_neg (not_not.2 zero), wantsButMics, List.tail_cons,
        bounds_cons_of_nonpos (by simp [zero])]
      exact cpus
    · rw [memTasks, if_pos zero, atMost_eq_min, wantsButMics, List.tail_cons,
        bounds_cons_of_pos (by simpa using Nat.pos_of_ne_zero zero)]
      exact cpus.insert _
  by_cases pos : 0 < r.gpus
  · rw [gpuTasks, if_pos pos, atMost_eq_min, min_comm, wantsButMics, bounds_cons_of_pos pos]
    exact memory.insert _
  · rw [gpuTasks, if_neg pos, wantsButMics, bounds_cons_of_nonpos pos]
    exact memory

/-- `how_many_tasks_fit` is the least bound, and at least 1 just when a task fits. -/
def FitsLeast (chip : Chip) (r : Req) (placeType : PlaceType) : Prop :=
  IsLeast (chip.bounds r placeType (chip.wants r)) (chip.howManyTasksFit r placeType) ∧
    (1 ≤ (chip.howManyTasksFit r placeType : ℚ) ↔ chip.taskWillFit r placeType = true)

/-- The comparison with the MICs of one task comes out like that with the bound of the MICs. -/
def MicsAgree (chip : Chip) (r : Req) (placeType : PlaceType) : Prop :=
  0 < r.mics →
    ((∃ share ∈ chip.bounds r placeType (chip.wantsButMics r), share ≤ r.mics) →
      ∃ share ∈ chip.bounds r placeType (chip.wantsButMics r),
        share ≤ chip.availableMics / r.mics) ∧
    ((∀ share ∈ chip.bounds r placeType (chip.wantsButMics r), r.mics < share) →
      ∀ share ∈ chip.bounds r placeType (chip.wantsButMics r),
        chip.availableMics / r.mics ≤ share)

theorem isLeast_micTasks {tasks : ℚ}
    (least : IsLeast (chip.bounds r placeType (chip.wantsButMics r)) tasks) :
    IsLeast (chip.bounds r placeType (chip.wants r)) (chip.micTasks r tasks) ↔
      chip.MicsAgree r placeType := by
  unfold MicsAgree
  generalize bounded : chip.bounds r placeType (chip.wantsButMics r) = others at least ⊢
  by_cases pos : 0 < r.mics
  · have below (bound : ℚ) : (∃ share ∈ others, share ≤ bound) ↔ tasks ≤ bound :=
      ⟨fun ⟨_, mem, le⟩ => (least.2 mem).trans le, fun le => ⟨tasks, least.1, le⟩⟩
    have above (bound : ℚ) : (∀ share ∈ others, bound ≤ share) ↔ bound ≤ tasks :=
      (le_isGLB_iff least.isGLB).symm
    have more' : (∀ share ∈ others, r.mics < share) ↔ r.mics < tasks :=
      ⟨fun all => all tasks least.1, fun less share mem => less.trans_le (least.2 mem)⟩
    have value : chip.micTasks r tasks =
        if r.mics < tasks then (chip.availableMics / r.mics : ℚ) else tasks := by
      rw [micTasks, if_pos pos]
      exact if_congr decide_eq_true_iff rfl rfl
    rw [below, below, above, more', wants, bounds_cons_of_pos pos, bounded, value,
      imp_iff_right pos]
    by_cases less : r.mics < tasks
    · rw [if_pos less]
      constructor
      · intro first
        exact ⟨fun le => absurd le less.not_ge, fun _ => first.2 (.inr least.1)⟩
      · rintro ⟨-, agree⟩
        refine ⟨.inl rfl, ?_⟩
        rintro share (rfl | mem)
        · exact le_rfl
        · exact (agree less).trans (least.2 mem)
    · rw [if_neg less]
      constructor
      · intro first
        exact ⟨fun _ => first.2 (.inl rfl), fun more => absurd more less⟩
      · rintro ⟨agree, -⟩
        refine ⟨.inr least.1, ?_⟩
        rintro share (rfl | mem)
        · exact agree (not_lt.1 less)
        · exact least.2 mem
  · rw [micTasks, if_neg pos, wants, bounds_cons_of_nonpos pos, bounded]
    exact iff_of_true least fun asked => absurd asked pos

section

variable (left : 0 ≤ chip.cpusLeft r placeType ∧ ∀ want ∈ chip.wants r, 0 ≤ want.1)
include left

/-- If the least bound is found, it says whether the task fits, unless all execution slots are
wanted: then something else has to be short. -/
theorem fits_iff_of_isLeast (asks : r.maxCpus ≠ 0) {tasks : ℚ}
    (least : IsLeast (chip.bounds r placeType (chip.wants r)) tasks) :
    (1 ≤ tasks ↔ chip.taskWillFit r placeType = true) ↔
      (r.maxCpus < 0 → ∃ want ∈ chip.wants r, want.1 < want.2) := by
  rw [taskWillFit_iff]
  rcases lt_or_gt_of_ne asks with all | some
  · have quotient : (chip.cpusLeft r placeType / r.maxCpus : ℚ) ≤ 0 :=
      div_nonpos_of_nonneg_of_nonpos (Int.cast_nonneg left.1) (Int.cast_nonpos.2 all.le)
    have none : ¬ 1 ≤ tasks := by
      have first := least.2 (Set.mem_insert _ _)
      linarith
    have enough : r.maxCpus ≤ chip.cpusLeft r placeType := all.le.trans left.1
    simp [none, enough, all]
  · have bound : 1 ≤ tasks ↔
        r.maxCpus ≤ chip.cpusLeft r placeType ∧ ∀ want ∈ chip.wants r, want.2 ≤ want.1 := by
      rw [le_isGLB_iff least.isGLB, ← one_le_shares_iff left.2, ← @Int.cast_le ℚ,
        ← one_le_div (Int.cast_pos.2 some)]
      exact Set.forall_mem_insert
    exact iff_of_true bound fun all => absurd all some.not_gt

/-- Zero is the least bound if some resource that the task wants is used up. -/
theorem isLeast_zero_iff (asks : r.maxCpus ≠ 0) :
    IsLeast (chip.bounds r placeType (chip.wants r)) 0 ↔
      chip.cpusLeft r placeType = 0 ∨
        0 < r.maxCpus ∧ ∃ want ∈ chip.wants r, 0 < want.2 ∧ want.1 = 0 := by
  have shared : ∀ share ∈ shares (chip.wants r), 0 ≤ share := by
    rintro share ⟨want, mem, pos, rfl⟩
    exact div_nonneg (Int.cast_nonneg (left.2 want mem)) (Int.cast_nonneg pos.le)
  constructor
  · rintro ⟨zero | ⟨want, mem, pos, zero⟩, below⟩
    · exact .inl (by simpa [asks] using zero.symm)
    · rcases lt_or_gt_of_ne asks with all | some
      · -- a quotient below zero would be less
        refine .inl (le_antisymm ?_ left.1)
        by_contra more
        have first := below (Set.mem_insert _ _)
        have negative : (chip.cpusLeft r placeType / r.maxCpus : ℚ) < 0 :=
          div_neg_of_pos_of_neg (Int.cast_pos.2 (not_le.1 more)) (Int.cast_lt_zero.2 all)
        linarith
      · exact .inr ⟨some, want, mem, pos, by simpa [pos.ne'] using zero.symm⟩
  · rintro (zero | ⟨some, want, mem, pos, zero⟩)
    · refine ⟨.inl (by simp [zero]), ?_⟩
      rintro share (rfl | mem)
      · simp [zero]
      · exact shared share mem
    · refine ⟨.inr ⟨want, mem, pos, by simp [zero]⟩, ?_⟩
      rintro share (rfl | mem)
      · exact div_nonneg (Int.cast_nonneg left.1) (Int.cast_nonneg some.le)
      · exact shared share mem

/-- For tasks that do not ask for a chip of their own, and a number of execution slots by which
one can divide. -/
theorem howManyTasksFit_least_iff (shared : placeType.practical ≠ .chip) (asks : r.maxCpus ≠ 0) :
    chip.FitsLeast r placeType ↔
      (if chip.chipExclusive then
        chip.cpusLeft r placeType = 0 ∨
          0 < r.maxCpus ∧ ∃ want ∈ chip.wants r, 0 < want.2 ∧ want.1 = 0
      else chip.MicsAgree r placeType) ∧
      (r.maxCpus < 0 → ∃ want ∈ chip.wants r, want.1 < want.2) := by
  have least : IsLeast (chip.bounds r placeType (chip.wants r)) (chip.howManyTasksFit r placeType) ↔
      if chip.chipExclusive then
        chip.cpusLeft r placeType = 0 ∨
          0 < r.maxCpus ∧ ∃ want ∈ chip.wants r, 0 < want.2 ∧ want.1 = 0
      else chip.MicsAgree r placeType := by
    split_ifs with exclusive
    · rw [howManyTasksFit, if_neg fun both => Bool.false_ne_true (both.1.symm.trans exclusive),
        ← isLeast_zero_iff left asks]
      exact Iff.of_eq (congrArg _ Int.cast_zero)
    · rw [howManyTasksFit, if_pos ⟨Bool.eq_false_iff.2 exclusive, .inl shared⟩, if_neg shared]
      exact isLeast_micTasks isLeast_gpuTasks
  rw [← least]
  exact and_congr_right (fits_iff_of_isLeast left asks)

end

/-- Four threads, two GPUs and two MICs, and tasks of one of each and a fourth of the memory. -/
theorem two_tasks_fit_least :
    FitsLeast ⟨1, 4, 1, 4, 2, 2, false, 8, 8, [], [], []⟩
      ⟨1, 2, 1, 1, false, [], 0, 0, 0, 0, 1⟩ .none := by
  refine (howManyTasksFit_least_iff (by decide) (by decide) (by decide)).2 ⟨fun _ => ?_, by decide⟩
  have other : PlaceType.none ≠ .legacy := by decide
  norm_num [bounds, shares, wantsButMics, cpusLeft, Req.maxCpus, other]

/-- Two threads, and tasks of one thread and two MICs, of which there is one. -/
theorem no_mics_fit_two : ∃ (chip : Chip) (r : Req),
    (chip.howManyTasksFit r .none : ℚ) = 2 ∧ ¬ chip.FitsLeast r .none := by
  have value : (Chip.howManyTasksFit ⟨1, 2, 1, 2, 0, 1, false, 0, 0, [], [], []⟩
      ⟨1, 0, 0, 2, false, [], 0, 0, 0, 0, 1⟩ .none : ℚ) = 2 := by decide +kernel
  refine ⟨_, _, value, fun fits => ?_⟩
  have fit := fits.2.1 (by rw [value]; norm_num)
  exact absurd fit (by decide)

end Chip

end Torque.Numa
