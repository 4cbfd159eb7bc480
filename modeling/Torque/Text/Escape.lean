import Mathlib.Data.List.Basic

/-!
# Separators behind a backslash

A backslash takes the meaning of a separator away.  There are two ways to look for
the next separator that counts.  `untilStop` reads the text from the left and skips
the character behind every backslash, so that two backslashes cancel.  `untilField`
only looks at the character in front of the separator.

`escape` puts a backslash in front of every separator.  Neither of the two readers
stops inside an escaped text.
-/

namespace Torque.Text

open List

/-- The text up to the first stop that is not escaped, and what is behind the stop.  The
flag says whether a backslash stands in front of the text. -/
def untilStop (stop : Char → Bool) : Bool → List Char → List Char × List Char
  | _, [] => ([], [])
  | true, c :: text =>
    let (word, rest) := untilStop stop false text
    (c :: word, rest)
  | false, c :: text =>
    if c = '\\' then
      let (word, rest) := untilStop stop true text
      (c :: word, rest)
    else if stop c then ([], text)
    else
      let (word, rest) := untilStop stop false text
      (c :: word, rest)

/-- No stop of the text counts, and its last character does not escape what follows. -/
def unbroken (stop : Char → Bool) : Bool → List Char → Bool
  | escaped, [] => !escaped
  | true, _ :: text => unbroken stop false text
  | false, c :: text =>
    if c = '\\' then unbroken stop true text else !stop c && unbroken stop false text

/-- The text up to the first separator with no backslash in front of it, and what is
behind that separator.  `before` is the character in front of the text. -/
def untilField (sep : Char) (before : Char) : List Char → List Char × List Char
  | [] => ([], [])
  | c :: text =>
    if c = sep ∧ before ≠ '\\' then ([], text)
    else
      let (word, rest) := untilField sep c text
      (c :: word, rest)

/-- A backslash is put in front of every separator. -/
def escape (sep : Char) : List Char → List Char
  | [] => []
  | c :: text => if c = sep then '\\' :: c :: escape sep text else c :: escape sep text

/-! ## Stops -/

section

variable {stop : Char → Bool} {escaped : Bool} {text : List Char}

theorem untilStop_pass (whole : unbroken stop escaped text = true) (more : List Char) :
    untilStop stop escaped (text ++ more) =
      (text ++ (untilStop stop false more).1, (untilStop stop false more).2) := by
  induction text generalizing escaped with
  | nil =>
    rw [unbroken, Bool.not_eq_true'] at whole
    rw [whole, nil_append, nil_append]
  | cons c text ih =>
    cases escaped with
    | true =>
      rw [cons_append, untilStop, ih whole, cons_append]
    | false =>
      rw [unbroken] at whole
      rw [cons_append, untilStop]
      split at whole
      · next backslash => rw [if_pos backslash, ih whole, cons_append]
      · next plain =>
        rw [Bool.and_eq_true, Bool.not_eq_true'] at whole
        rw [if_neg plain, whole.1, if_neg Bool.false_ne_true, ih whole.2, cons_append]

theorem untilStop_unbroken (whole : unbroken stop escaped text = true) :
    untilStop stop escaped text = (text, []) := by
  have passed := untilStop_pass whole []
  rwa [untilStop, append_nil] at passed

/-- An unbroken text is read up to the stop behind it. -/
theorem untilStop_append {s : Char} {rest : List Char} (whole : unbroken stop escaped text = true)
    (stops : stop s = true) (plain : s ≠ '\\') :
    untilStop stop escaped (text ++ s :: rest) = (text, rest) := by
  rw [untilStop_pass whole, untilStop, if_neg plain, if_pos stops, append_nil]

/-- What is behind the stop is shorter than the text, unless nothing is left. -/
theorem length_untilStop_le (stop : Char → Bool) (escaped : Bool) (text : List Char) :
    (untilStop stop escaped text).2.length ≤ text.length - 1 := by
  induction text generalizing escaped with
  | nil => cases escaped <;> exact Nat.le_refl 0
  | cons c text ih =>
    have later := ih false
    have behind := ih true
    cases escaped with
    | true =>
      rw [untilStop]
      dsimp only [length_cons]
      omega
    | false =>
      rw [untilStop]
      split_ifs
      all_goals
        dsimp only [length_cons]
        omega

/-- Behind an unbroken text nothing is escaped. -/
theorem unbroken_append (whole : unbroken stop escaped text = true) (more : List Char) :
    unbroken stop escaped (text ++ more) = unbroken stop false more := by
  induction text generalizing escaped with
  | nil =>
    rw [unbroken, Bool.not_eq_true'] at whole
    rw [whole, nil_append]
  | cons c text ih =>
    cases escaped with
    | true =>
      rw [cons_append, unbroken, ih whole]
    | false =>
      rw [unbroken] at whole
      rw [cons_append, unbroken]
      split at whole
      · next backslash => rw [if_pos backslash, ih whole]
      · next other =>
        rw [Bool.and_eq_true] at whole
        rw [if_neg other, whole.1, Bool.true_and, ih whole.2]

/-- Characters that are neither stops nor backslashes. -/
theorem unbroken_of_plain (plain : ∀ c ∈ text, c ≠ '\\' ∧ stop c = false) :
    unbroken stop false text = true := by
  induction text with
  | nil => rfl
  | cons c text ih =>
    obtain ⟨other, goes⟩ := plain c mem_cons_self
    rw [unbroken, if_neg other, goes, ih (forall_mem_cons.mp plain).2]
    rfl

/-- Escaping another separator breaks nothing: whether the separator was escaped before or
not, the character behind it is read as before. -/
theorem unbroken_escape {sep : Char} (goes : stop sep = false) (plain : sep ≠ '\\')
    (whole : unbroken stop escaped text = true) :
    unbroken stop escaped (escape sep text) = true := by
  induction text generalizing escaped with
  | nil => exact whole
  | cons c text ih =>
    rw [escape]
    split
    · next isSep =>
      subst isSep
      cases escaped with
      | true =>
        rw [unbroken, unbroken, if_neg plain, goes, ih whole]
        rfl
      | false =>
        rw [unbroken, if_neg plain, goes] at whole
        rw [unbroken, if_pos rfl, unbroken, ih whole]
    · cases escaped with
      | true =>
        rw [unbroken, ih whole]
      | false =>
        rw [unbroken] at whole
        rw [unbroken]
        split at whole
        · next backslash => rw [if_pos backslash, ih whole]
        · next other =>
          rw [Bool.and_eq_true] at whole
          rw [if_neg other, whole.1, ih whole.2]
          rfl

end

/-! ## Fields -/

section

variable {sep before : Char} {text : List Char}

theorem escape_of_not_mem (clean : sep ∉ text) : escape sep text = text := by
  induction text with
  | nil => rfl
  | cons c text ih =>
    rw [mem_cons, not_or] at clean
    rw [escape, if_neg (Ne.symm clean.1), ih clean.2]

theorem escape_append (sep : Char) (text more : List Char) :
    escape sep (text ++ more) = escape sep text ++ escape sep more := by
  induction text with
  | nil => rfl
  | cons c text ih =>
    rw [cons_append, escape, escape, ih]
    split <;> rfl

theorem escape_eq_nil_iff : escape sep text = [] ↔ text = [] := by
  cases text with
  | nil => exact Iff.rfl
  | cons c text =>
    rw [escape]
    split <;> simp

theorem length_le_escape (sep : Char) (text : List Char) :
    text.length ≤ (escape sep text).length := by
  induction text with
  | nil => exact Nat.le_refl 0
  | cons c text ih =>
    rw [escape]
    split <;> simp only [length_cons] <;> omega

/-- Only a text without separators is not changed. -/
theorem escape_eq_self_iff : escape sep text = text ↔ sep ∉ text := by
  constructor
  · intro same mem
    obtain ⟨before, after, rfl⟩ := append_of_mem mem
    have length := congrArg length same
    rw [escape_append, escape, if_pos rfl] at length
    have first := length_le_escape sep before
    have second := length_le_escape sep after
    simp only [length_append, length_cons] at length
    omega
  · exact escape_of_not_mem

/-- Nothing but backslashes is added. -/
theorem mem_escape_iff {c : Char} (other : c ≠ '\\') : c ∈ escape sep text ↔ c ∈ text := by
  induction text with
  | nil => rfl
  | cons d text ih =>
    rw [escape]
    split <;> simp [ih, other]

theorem length_untilField_le (sep before : Char) (text : List Char) :
    (untilField sep before text).2.length ≤ text.length - 1 := by
  induction text generalizing before with
  | nil => exact Nat.le_refl 0
  | cons c text ih =>
    have later := ih c
    rw [untilField]
    split
    · dsimp only [length_cons]
      omega
    · dsimp only [length_cons]
      omega

theorem untilField_escape (plain : sep ≠ '\\') :
    untilField sep before (escape sep text) = (escape sep text, []) := by
  induction text generalizing before with
  | nil => rfl
  | cons c text ih =>
    rw [escape]
    split
    · rw [untilField, if_neg fun stops => plain stops.1.symm, untilField,
        if_neg fun stops => stops.2 rfl, ih]
    · next other => rw [untilField, if_neg fun stops => other stops.1, ih]

/-- An escaped text that does not end in a backslash is read up to the separator behind it. -/
theorem untilField_escape_append {rest : List Char} (plain : sep ≠ '\\')
    (ends : text.getLastD before ≠ '\\') :
    untilField sep before (escape sep text ++ sep :: rest) = (escape sep text, rest) := by
  induction text generalizing before with
  | nil => rw [escape, nil_append, untilField, if_pos ⟨rfl, ends⟩]
  | cons c text ih =>
    have later : text.getLastD c ≠ '\\' := by rwa [getLastD_cons] at ends
    rw [escape]
    split
    · rw [cons_append, cons_append, untilField, if_neg fun stops => plain stops.1.symm,
        untilField, if_neg fun stops => stops.2 rfl, ih later]
    · next other =>
      rw [cons_append, untilField, if_neg fun stops => other stops.1, ih later]

end

end Torque.Text
