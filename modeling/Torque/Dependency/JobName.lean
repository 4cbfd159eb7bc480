import Torque.Dependency.Attribute
import Mathlib.Data.List.TakeWhile

/-!
# Job names in dependencies

The name of a job is written with a backslash in front of every colon.  The reader keeps
the backslashes, completes the name by what the server adds to job numbers, and cuts it
off at the server that may follow.  Which names come back as they were depends on how the
server shows job names.
-/

namespace Torque.Dependency

open Torque.Text List

/-- What is read of the name that was written for a job. -/
def readBack (names : ServerNames) (child : JobId) : JobId :=
  childOfWord names (catJobsvr child)

/-- The names that come back.  They name no server, and no colon of theirs is read; the
suffix that is not shown, or replaced by the alias, must already be what the server makes
of it. -/
def KeptName (names : ServerNames) (child : JobId) : Prop :=
  '@' ∉ child ∧
    match names.displayJobServerSuffix, names.jobSuffixAlias with
    | true, some suffix => ':' ∉ child ∧ (behindDot child).bind behindDot = some suffix
    | true, none => ':' ∉ child ∧ '.' ∈ child
    | false, some suffix =>
      ':' ∉ child.takeWhile (· ≠ '.') ∧
        child = child.takeWhile (· ≠ '.') ++ '.' :: suffix.takeWhile (· ≠ '@')
    | false, none => ':' ∉ child ∧ '.' ∉ child

instance (names : ServerNames) (child : JobId) : Decidable (KeptName names child) := by
  obtain ⟨_, _ | _, _ | _⟩ := names
  all_goals
    dsimp only [KeptName]
    infer_instance

/-! ## Dots -/

section

variable {child : JobId}

theorem takeWhile_escape (child : JobId) :
    (escape ':' child).takeWhile (· ≠ '.') = escape ':' (child.takeWhile (· ≠ '.')) := by
  induction child with
  | nil => rfl
  | cons c child ih =>
    by_cases dot : c = '.'
    · subst dot
      rfl
    · by_cases colon : c = ':'
      · subst colon
        simpa [escape] using ih
      · simpa [escape, colon, dot] using ih

theorem behindDot_escape (child : JobId) :
    behindDot (escape ':' child) = (behindDot child).map (escape ':') := by
  induction child with
  | nil => rfl
  | cons c child ih =>
    by_cases dot : c = '.'
    · subst dot
      rfl
    · by_cases colon : c = ':'
      · subst colon
        simpa [escape, behindDot] using ih
      · simpa [escape, colon, dot, behindDot] using ih

theorem escape_behindDot {text : List Char} (clean : escape ':' child = child)
    (found : behindDot child = some text) : escape ':' text = text := by
  have dots := behindDot_escape child
  rw [clean, found, Option.map_some, Option.some.injEq] at dots
  exact dots.symm

theorem behindDot_eq_none_iff : behindDot child = none ↔ '.' ∉ child := by
  induction child with
  | nil => simp [behindDot]
  | cons c child ih =>
    by_cases dot : c = '.'
    · subst dot
      simp [behindDot]
    · simpa [behindDot, dot, eq_comm] using ih

theorem dot_not_mem_takeWhile (child : JobId) : '.' ∉ child.takeWhile (· ≠ '.') := by
  intro mem
  exact absurd (mem_takeWhile_imp mem) (by decide)

theorem takeWhile_of_no_dot (dots : '.' ∉ child) : child.takeWhile (· ≠ '.') = child := by
  apply takeWhile_eq_self_iff.2
  intro c mem
  exact decide_eq_true (ne_of_mem_of_not_mem mem dots)

end

/-! ## Which names come back -/

section

variable {names : ServerNames} {child : JobId} {word server suffix : List Char}

/-- A name that comes back names no server. -/
theorem at_not_mem_of_readBack (same : readBack names child = child) : '@' ∉ child := by
  rw [← same, readBack, childOfWord]
  intro mem
  exact absurd (mem_takeWhile_imp mem) (by decide)

/-- In front of the server nothing is cut off. -/
theorem takeWhile_at_append (noServer : '@' ∉ word) (more : List Char) :
    (word ++ more).takeWhile (· ≠ '@') = word ++ more.takeWhile (· ≠ '@') := by
  apply takeWhile_append_of_pos
  intro c mem
  exact decide_eq_true (ne_of_mem_of_not_mem mem noServer)

section

variable (noServer : '@' ∉ child)
include noServer

theorem takeWhile_at_escape : (escape ':' child).takeWhile (· ≠ '@') = escape ':' child := by
  have noServer' : '@' ∉ escape ':' child := (mem_escape_iff (by decide)).not.2 noServer
  have cut := takeWhile_at_append noServer' []
  rwa [append_nil, takeWhile_nil, append_nil] at cut

/-- The name is completed, and so it does not come back. -/
theorem takeWhile_at_completed_ne (more : List Char) :
    (escape ':' child ++ '.' :: more).takeWhile (· ≠ '@') ≠ child := by
  rw [takeWhile_at_append ((mem_escape_iff (by decide)).not.2 noServer),
    takeWhile_cons_of_pos (by decide)]
  intro equal
  have length := congrArg length equal
  have long := length_le_escape ':' child
  rw [length_append, length_cons] at length
  omega

/-- The server's name and the alias are shown. -/
theorem readBack_eq_iff_alias :
    readBack ⟨server, some suffix, true⟩ child = child ↔
      ':' ∉ child ∧ (behindDot child).bind behindDot = some suffix := by
  unfold readBack childOfWord catJobsvr getCorrectJobname
  dsimp only
  rw [behindDot_escape]
  cases first : behindDot child with
  | none =>
    rw [append_assoc, cons_append]
    exact iff_of_false (takeWhile_at_completed_ne noServer _) (fun kept => nomatch kept.2)
  | some text =>
    rw [Option.map_some, Option.bind_some, Option.bind_some, behindDot_escape]
    cases second : behindDot text with
    | none =>
      exact iff_of_false (takeWhile_at_completed_ne noServer _) (fun kept => nomatch kept.2)
    | some text' =>
      dsimp only [Option.map_some]
      have clean : ':' ∉ child → escape ':' text' = text' := fun clean =>
        escape_behindDot (escape_behindDot (escape_of_not_mem clean) first) second
      split
      · next equal =>
        rw [takeWhile_at_escape noServer, escape_eq_self_iff, Option.some.injEq, ← equal]
        exact (and_iff_left_of_imp fun none => (clean none).symm).symm
      · next other =>
        apply iff_of_false
        · intro empty
          rw [← empty] at first
          exact nomatch first
        · rintro ⟨none, equal⟩
          rw [Option.some.injEq] at equal
          exact other ((clean none).trans equal)

theorem readBack_eq_iff_suffix :
    readBack ⟨server, none, true⟩ child = child ↔ ':' ∉ child ∧ '.' ∈ child := by
  unfold readBack childOfWord catJobsvr getCorrectJobname
  rw [behindDot_escape]
  cases first : behindDot child with
  | none =>
    exact iff_of_false (takeWhile_at_completed_ne noServer _)
      (fun kept => behindDot_eq_none_iff.1 first kept.2)
  | some text =>
    have dotted : '.' ∈ child := by
      by_contra none
      rw [behindDot_eq_none_iff.2 none] at first
      exact nomatch first
    dsimp only [Option.map_some]
    rw [takeWhile_at_escape noServer, escape_eq_self_iff, and_iff_left dotted]

/-- The alias is shown in the place of the server's name. -/
theorem readBack_eq_iff_replaced :
    readBack ⟨server, some suffix, false⟩ child = child ↔
      ':' ∉ child.takeWhile (· ≠ '.') ∧
        child = child.takeWhile (· ≠ '.') ++ '.' :: suffix.takeWhile (· ≠ '@') := by
  have noServer' : '@' ∉ escape ':' (child.takeWhile (· ≠ '.')) :=
    (mem_escape_iff (by decide)).not.2 fun mem => noServer ((takeWhile_sublist _).mem mem)
  unfold readBack childOfWord catJobsvr getCorrectJobname
  rw [takeWhile_escape, takeWhile_at_append noServer', takeWhile_cons_of_pos (by decide)]
  constructor
  · intro same
    have number : escape ':' (child.takeWhile (· ≠ '.')) = child.takeWhile (· ≠ '.') := by
      conv_rhs => rw [← same]
      rw [takeWhile_append_of_pos, takeWhile_cons_of_neg (by decide), append_nil]
      intro c mem
      have dots : '.' ∉ escape ':' (child.takeWhile (· ≠ '.')) :=
        (mem_escape_iff (by decide)).not.2 (dot_not_mem_takeWhile child)
      exact decide_eq_true (ne_of_mem_of_not_mem mem dots)
    rw [number] at same
    exact ⟨escape_eq_self_iff.1 number, same.symm⟩
  · rintro ⟨clean, same⟩
    rw [escape_of_not_mem clean]
    exact same.symm

/-- Only the number is shown. -/
theorem readBack_eq_iff_number :
    readBack ⟨server, none, false⟩ child = child ↔ ':' ∉ child ∧ '.' ∉ child := by
  have noServer' : '@' ∉ child.takeWhile (· ≠ '.') :=
    fun mem => noServer ((takeWhile_sublist _).mem mem)
  unfold readBack childOfWord catJobsvr getCorrectJobname
  rw [takeWhile_escape, takeWhile_at_escape noServer']
  constructor
  · intro same
    have dots : '.' ∉ child := by
      intro dot
      rw [← same, mem_escape_iff (by decide)] at dot
      exact dot_not_mem_takeWhile child dot
    rw [takeWhile_of_no_dot dots] at same
    exact ⟨escape_eq_self_iff.1 same, dots⟩
  · rintro ⟨clean, dots⟩
    rw [takeWhile_of_no_dot dots, escape_of_not_mem clean]

end

/-- The names that come back, by the way in which the server shows job names. -/
theorem readBack_eq_iff : readBack names child = child ↔ KeptName names child := by
  obtain ⟨server, suffix, display⟩ := names
  constructor
  · intro same
    have noServer := at_not_mem_of_readBack same
    refine ⟨noServer, ?_⟩
    cases display <;> cases suffix
    · exact (readBack_eq_iff_number noServer).1 same
    · exact (readBack_eq_iff_replaced noServer).1 same
    · exact (readBack_eq_iff_suffix noServer).1 same
    · exact (readBack_eq_iff_alias noServer).1 same
  · rintro ⟨noServer, kept⟩
    cases display <;> cases suffix
    · exact (readBack_eq_iff_number noServer).2 kept
    · exact (readBack_eq_iff_replaced noServer).2 kept
    · exact (readBack_eq_iff_suffix noServer).2 kept
    · exact (readBack_eq_iff_alias noServer).2 kept

end

end Torque.Dependency
