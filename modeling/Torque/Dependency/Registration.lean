import Torque.Dependency.HoldSafety

/-!
# Looking up the entry of a job

The dependencies of a job name other jobs.  A job is looked up by its id, and if the suffix
of the server is not displayed, by what its id begins with.  Then the name of one job can
find the entry of another: `12` finds `123`.
-/

namespace Torque.Dependency

open List

/-- The entry of the job with a name.  If the suffix is not displayed, a name without a dot
stands for the job whose id has it in front of the first dot. -/
def OwnEntry (names : ServerNames) (name child : JobId) : Prop :=
  child = name ∨
    names.displayJobServerSuffix = false ∧ '.' ∉ name ∧ child.takeWhile (· ≠ '.') = name

/-- `find_dependjob` finds an entry of the job, if there is one, and no other; what is done
with the entry that it finds leaves the entries of other jobs. -/
structure FindsOwn (names : ServerNames) (name : JobId) (jobs : List JobId) : Prop where
  found : ∀ child, jobs.find? (namesJob names name) = some child → OwnEntry names name child
  finds : (jobs.find? (namesJob names name)).isSome = true ↔
    ∃ child ∈ jobs, OwnEntry names name child
  others : ∀ child ∈ jobs, ¬ OwnEntry names name child →
    child ∈ jobs.eraseP (namesJob names name)

variable {names : ServerNames} {name child : JobId} {jobs : List JobId}

theorem OwnEntry.namesJob (own : OwnEntry names name child) : namesJob names name child = true := by
  unfold Dependency.namesJob
  rcases own with rfl | ⟨hidden, bare, number⟩
  · simp
  · have begins : name <+: child := number ▸ takeWhile_prefix _
    simp [hidden, bare, begins]

/-- Whatever else a name finds begins with it. -/
theorem namesJob_of_not_own (named : namesJob names name child = true)
    (foreign : ¬ OwnEntry names name child) :
    names.displayJobServerSuffix = false ∧ name <+: child ∧ '.' ∉ name := by
  have other : child ≠ name := fun same => foreign (.inl same)
  simpa [namesJob, other, and_assoc] using named

/-- A job is looked up rightly exactly if the suffix is displayed, or the name has a dot, or
every entry of another job that begins with the name has one of the job in front of it. -/
theorem findsOwn_iff (names : ServerNames) (name : JobId) (jobs : List JobId) :
    FindsOwn names name jobs ↔
      names.displayJobServerSuffix = true ∨ '.' ∈ name ∨
        ∀ front child back, jobs = front ++ child :: back → name <+: child →
          ¬ OwnEntry names name child → ∃ own ∈ front, OwnEntry names name own := by
  constructor
  · intro right
    by_contra wrong
    push Not at wrong
    obtain ⟨hidden, bare, front, child, back, split, begins, foreign, none⟩ := wrong
    have named : namesJob names name child = true := by
      simp [namesJob, hidden, bare, begins]
    cases first : front.find? (namesJob names name) with
    | some own =>
      refine none own (mem_of_find?_eq_some first) (right.found own ?_)
      rw [split, find?_append, first, Option.some_or]
    | none =>
      refine foreign (right.found child ?_)
      rw [split, find?_append, first, Option.none_or, find?_cons_of_pos named]
  · intro condition
    have found : ∀ child, jobs.find? (namesJob names name) = some child →
        OwnEntry names name child := by
      intro child isFound
      obtain ⟨named, front, back, split, before⟩ := find?_eq_some_iff_append.1 isFound
      by_contra foreign
      obtain ⟨hidden, begins, bare⟩ := namesJob_of_not_own named foreign
      rcases condition with shown | dotted | guarded
      · rw [hidden] at shown
        cases shown
      · exact bare dotted
      · obtain ⟨own, mem, isOwn⟩ := guarded front child back split begins foreign
        have unnamed := before own mem
        rw [isOwn.namesJob] at unnamed
        cases unnamed
    refine ⟨found, ?_, ?_⟩
    · constructor
      · intro some
        obtain ⟨child, isFound⟩ := Option.isSome_iff_exists.1 some
        exact ⟨child, mem_of_find?_eq_some isFound, found child isFound⟩
      · rintro ⟨child, mem, own⟩
        exact find?_isSome.2 ⟨child, mem, own.namesJob⟩
    · intro child mem foreign
      by_contra gone
      exact foreign (found child (find?_of_not_mem_eraseP mem gone))

/-- Without the suffix, the name `12` finds the entry of the job `123`. -/
theorem findsOwn_fails :
    ¬ ∀ names name jobs, jobs.Nodup → FindsOwn names name jobs := by
  intro finds
  have own := (finds ⟨"server".toList, none, false⟩ "12".toList ["123".toList]
    (pairwise_singleton _ _)).found "123".toList (by decide)
  unfold OwnEntry at own
  exact absurd own (by decide)

end Torque.Dependency
