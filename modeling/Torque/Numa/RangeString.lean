import Torque.JobArrays.Request

/-!
# Lists of indices as range strings

A list of indices is written as ranges, such as `0-3,8`, one for each run of consecutive indices,
in the order of the list.  `translate_range_string_to_vector` reads the list back, provided that
the indices are those that an operating system counts: not negative, and within an `int`.
-/

namespace Torque.Numa

open Torque.JobArrays Torque.Text List

variable {ranges : List (Int × Int)} {first prev : Int} {indices : List Int} {n : Int}
  {rest text : List Char} {range : Int × Int} {c : Char}

/-- A range without what stands before it. -/
def printRange (range : Int × Int) : List Char :=
  if range.1 = range.2 then decimalInt range.1 else decimalInt range.1 ++ '-' :: decimalInt range.2

/-- `add_range_to_string`. -/
def addRangeToString (rangeString : List Char) (first last : Int) : List Char :=
  rangeString ++ (if rangeString = [] then [] else [',']) ++ printRange (first, last)

/-- The loop of `translate_vector_to_range_string`, and the last piece. -/
def vectorLoop : List Int → List Char → Int → Int → List Char
  | [], rangeString, first, prev => addRangeToString rangeString first prev
  | index :: indices, rangeString, first, prev =>
    if index = prev + 1 then vectorLoop indices rangeString first index
    else vectorLoop indices (addRangeToString rangeString first prev) index index

/-- `translate_vector_to_range_string`. -/
def translateVectorToRangeString : List Int → List Char
  | [] => []
  | first :: indices => vectorLoop indices [] first first

example : translateVectorToRangeString [0, 1, 2, 8, 5, 6] = "0-2,8,5-6".toList := by
  decide +kernel

/-! ## The runs of a list -/

/-- The runs of a list behind a run that is still open. -/
def runsFrom : List Int → Int → Int → List (Int × Int)
  | [], first, prev => [(first, prev)]
  | index :: indices, first, prev =>
    if index = prev + 1 then runsFrom indices first index
    else (first, prev) :: runsFrom indices index index

/-- Ranges with commas between them. -/
def printRanges : List (Int × Int) → List Char
  | [] => []
  | [range] => printRange range
  | range :: next :: ranges => printRange range ++ ',' :: printRanges (next :: ranges)

theorem runsFrom_ne_nil (indices : List Int) (first prev : Int) :
    runsFrom indices first prev ≠ [] := by
  induction indices generalizing first prev with
  | nil => exact cons_ne_nil _ _
  | cons index indices ih =>
    unfold runsFrom
    split
    · exact ih first index
    · exact cons_ne_nil _ _

theorem printRanges_cons (more : ranges ≠ []) (range : Int × Int) :
    printRanges (range :: ranges) = printRange range ++ ',' :: printRanges ranges := by
  cases ranges with
  | nil => exact absurd rfl more
  | cons next ranges => rfl

theorem decimalInt_ne_nil (n : Int) : decimalInt n ≠ [] := by
  unfold decimalInt
  split
  · exact decimal_ne_nil _
  · exact cons_ne_nil _ _

theorem printRange_ne_nil (range : Int × Int) : printRange range ≠ [] := by
  unfold printRange
  split
  · exact decimalInt_ne_nil _
  · exact append_ne_nil_of_left_ne_nil (decimalInt_ne_nil _) _

theorem vectorLoop_eq (indices : List Int) (rangeString : List Char) (first prev : Int) :
    vectorLoop indices rangeString first prev =
      rangeString ++ (if rangeString = [] then [] else [',']) ++
        printRanges (runsFrom indices first prev) := by
  induction indices generalizing rangeString first prev with
  | nil => rfl
  | cons index indices ih =>
    unfold vectorLoop runsFrom
    split
    · exact ih rangeString first index
    · have written : addRangeToString rangeString first prev ≠ [] :=
        append_ne_nil_of_right_ne_nil _ (printRange_ne_nil _)
      rw [ih, if_neg written, printRanges_cons (runsFrom_ne_nil _ _ _), addRangeToString]
      simp only [append_assoc, singleton_append]

theorem indicesUpTo_self (n : Int) : indicesUpTo n n = [n] := by
  unfold indicesUpTo
  rw [show (n + 1 - n).toNat = 1 by omega]
  simp

theorem indicesUpTo_succ (ordered : first ≤ prev) :
    indicesUpTo first (prev + 1) = indicesUpTo first prev ++ [prev + 1] := by
  unfold indicesUpTo
  rw [show (prev + 1 + 1 - first).toNat = (prev + 1 - first).toNat + 1 by omega, range_succ]
  simp only [map_append, map_singleton]
  congr 2
  omega

theorem flatMap_runsFrom (ordered : first ≤ prev) :
    ((runsFrom indices first prev).flatMap fun range => indicesUpTo range.1 range.2) =
      indicesUpTo first prev ++ indices := by
  induction indices generalizing first prev with
  | nil => simp [runsFrom]
  | cons index indices ih =>
    unfold runsFrom
    split
    · next consecutive =>
      subst consecutive
      rw [ih (by omega), indicesUpTo_succ ordered, append_assoc]
      rfl
    · rw [flatMap_cons, ih le_rfl, indicesUpTo_self]
      rfl

/-- A range that can be read back. -/
def Readable (range : Int × Int) : Prop :=
  0 ≤ range.1 ∧ range.1 ≤ range.2 ∧ range.2 < 2 ^ 31

theorem readable_runsFrom (small : ∀ index ∈ indices, 0 ≤ index ∧ index < 2 ^ 31)
    (opened : Readable (first, prev)) : ∀ range ∈ runsFrom indices first prev, Readable range := by
  induction indices generalizing first prev with
  | nil =>
    exact forall_mem_singleton.mpr opened
  | cons index indices ih =>
    have rest : ∀ other ∈ indices, 0 ≤ other ∧ other < 2 ^ 31 :=
      (forall_mem_cons.1 small).2
    have here := small index mem_cons_self
    have ⟨positive, ordered, _⟩ := opened
    unfold runsFrom
    split
    · next consecutive =>
      apply ih rest
      refine ⟨positive, ?_, here.2⟩
      omega
    · exact forall_mem_cons.mpr ⟨opened, ih rest ⟨here.1, le_rfl, here.2⟩⟩

/-! ## Reading them back -/

theorem strtol_decimalInt (positive : 0 ≤ n) (small : n < 2 ^ 31)
    (stop : ∀ c, rest.head? = some c → c.isDigit = false) :
    strtol (decimalInt n ++ rest) = (n, rest) := by
  have value : digitsValue (decimal n.toNat) < 2 ^ 63 := by
    rw [digitsValue_decimal]
    omega
  unfold decimalInt
  rw [if_pos positive, strtol_digits (decimal_ne_nil _) (fun _ mem => isDigit_decimal mem) stop
    value, digitsValue_decimal, Int.toNat_of_nonneg positive]

theorem asInt_of_small (positive : 0 ≤ n) (small : n < 2 ^ 31) : asInt n = n := by
  have natural := asInt_of_lt (n := n.toNat) (by omega)
  rw [Int.toNat_of_nonneg positive] at natural
  exact natural

theorem isDigit_head_decimalInt (positive : 0 ≤ n) (rest : List Char) :
    ((decimalInt n ++ rest).headD ' ').isDigit = true := by
  unfold decimalInt
  rw [if_pos positive]
  cases written : decimal n.toNat with
  | nil => exact absurd written (decimal_ne_nil _)
  | cons digit digits =>
    apply isDigit_decimal (n := n.toNat)
    rw [written]
    exact mem_cons_self

theorem ne_decimalInt_append (n : Int) (rest : List Char) : rest ≠ decimalInt n ++ rest := by
  intro equal
  exact decimalInt_ne_nil n (self_eq_append_left.mp equal)

/-- The text behind a range begins with a comma, or there is none. -/
def Separated (rest : List Char) : Prop :=
  rest = [] ∨ ∃ more, rest = ',' :: more

theorem Separated.stop (separated : Separated rest) :
    ∀ c, rest.head? = some c → c.isDigit = false := by
  rcases separated with rfl | ⟨more, rfl⟩
  · nofun
  · rintro c ⟨⟩
    decide

/-- One step of the loop, at a single number. -/
theorem translateRanges_single (read : strtol text = (first, rest)) (moved : rest ≠ text)
    (separated : Separated rest) (fuel : Nat) :
    translateRanges (fuel + 1) text =
      ((translateRanges fuel (rest.dropWhile isSeparator)).1,
        asInt first :: (translateRanges fuel (rest.dropWhile isSeparator)).2) := by
  cases text with
  | nil =>
    cases read
    exact absurd rfl moved
  | cons c text =>
    rw [translateRanges, read]
    dsimp only
    rw [if_neg moved]
    rcases separated with rfl | ⟨more, rfl⟩ <;> rfl

theorem translateRanges_dash {ptr : List Char} {last : Int}
    (read : strtol text = (first, '-' :: ptr)) (moved : '-' :: ptr ≠ text)
    (digit : (ptr.headD ' ').isDigit = true) (second : strtol ptr = (last, rest)) (fuel : Nat) :
    translateRanges (fuel + 1) text =
      ((translateRanges fuel (rest.dropWhile isSeparator)).1,
        indicesUpTo (asInt first) (asInt last) ++
          (translateRanges fuel (rest.dropWhile isSeparator)).2) := by
  cases text with
  | nil => cases read
  | cons c text =>
    rw [translateRanges, read]
    dsimp only
    rw [if_neg moved]
    refine (if_pos digit).trans ?_
    rw [second]

theorem translateRanges_printRange (readable : Readable range) (separated : Separated rest)
    (fuel : Nat) :
    translateRanges (fuel + 1) (printRange range ++ rest) =
      ((translateRanges fuel (rest.dropWhile isSeparator)).1,
        indicesUpTo range.1 range.2 ++ (translateRanges fuel (rest.dropWhile isSeparator)).2) := by
  obtain ⟨positive, ordered, small⟩ := readable
  obtain ⟨first, last⟩ := range
  unfold printRange
  split
  · next single =>
    dsimp only at single ⊢
    subst single
    rw [translateRanges_single (strtol_decimalInt positive small separated.stop)
      (ne_decimalInt_append first rest) separated, asInt_of_small positive small, indicesUpTo_self]
    rfl
  · have dash : ∀ c, ('-' :: (decimalInt last ++ rest)).head? = some c → c.isDigit = false := by
      rintro c ⟨⟩
      decide
    have within : first < 2 ^ 31 := by omega
    have above : 0 ≤ last := by omega
    rw [append_assoc, cons_append,
      translateRanges_dash (strtol_decimalInt positive within dash) (ne_decimalInt_append first _)
        (isDigit_head_decimalInt above rest) (strtol_decimalInt above small separated.stop),
      asInt_of_small positive within, asInt_of_small above small]

theorem isDigit_head_printRange (readable : Readable range) (rest : List Char) :
    ((printRange range ++ rest).headD ' ').isDigit = true := by
  unfold printRange
  split
  · exact isDigit_head_decimalInt readable.1 rest
  · rw [append_assoc]
    exact isDigit_head_decimalInt readable.1 _

theorem isDigit_head_printRanges (nonempty : ranges ≠ [])
    (readable : ∀ range ∈ ranges, Readable range) :
    ((printRanges ranges).headD ' ').isDigit = true := by
  obtain ⟨range, ranges, rfl⟩ := exists_cons_of_ne_nil nonempty
  have here := readable range mem_cons_self
  cases ranges with
  | nil =>
    have digit := isDigit_head_printRange here []
    rw [append_nil] at digit
    exact digit
  | cons next ranges => exact isDigit_head_printRange here _

theorem dropWhile_of_isDigit {skip : Char → Bool} (digit : (text.headD ' ').isDigit = true)
    (skips : ∀ c, c.isDigit = true → skip c = false) : text.dropWhile skip = text := by
  cases text with
  | nil => rfl
  | cons c text => rw [dropWhile_cons_of_neg (by rw [skips c digit]; decide)]

theorem isWhitespace_of_isDigit (digit : c.isDigit = true) : isWhitespace c = false := by
  apply decide_eq_false
  intro blank
  simp only [mem_cons, not_mem_nil, or_false] at blank
  rcases blank with rfl | rfl | rfl | rfl | rfl <;> cases digit

theorem isSeparator_of_isDigit (digit : c.isDigit = true) : isSeparator c = false := by
  have other : c ≠ ',' := by
    rintro rfl
    cases digit
  unfold isSeparator
  rw [isWhitespace_of_isDigit digit, decide_eq_false other]
  rfl

theorem translateRanges_printRanges (readable : ∀ range ∈ ranges, Readable range) {fuel : Nat}
    (enough : ranges.length ≤ fuel) :
    translateRanges fuel (printRanges ranges) =
      (true, ranges.flatMap fun range => indicesUpTo range.1 range.2) := by
  induction ranges generalizing fuel with
  | nil => cases fuel <;> rfl
  | cons range ranges ih =>
    obtain ⟨fuel, rfl⟩ := Nat.exists_eq_succ_of_ne_zero (Nat.ne_of_gt
      (Nat.lt_of_lt_of_le (Nat.succ_pos _) enough))
    have here := readable range mem_cons_self
    have later : ∀ other ∈ ranges, Readable other :=
      (forall_mem_cons.1 readable).2
    have rest := ih later (Nat.le_of_succ_le_succ enough)
    rw [flatMap_cons]
    by_cases last : ranges = []
    · subst last
      have read := translateRanges_printRange here (.inl rfl) fuel
      rw [append_nil, dropWhile_nil] at read
      rw [printRanges, read]
      cases fuel <;> rfl
    · have skipped : (',' :: printRanges ranges).dropWhile isSeparator = printRanges ranges :=
        dropWhile_of_isDigit (isDigit_head_printRanges last later) fun _ => isSeparator_of_isDigit
      rw [printRanges_cons last, translateRanges_printRange here (.inr ⟨_, rfl⟩), skipped, rest]

theorem length_le_printRanges (ranges : List (Int × Int)) :
    ranges.length ≤ (printRanges ranges).length := by
  induction ranges with
  | nil => exact le_rfl
  | cons range ranges ih =>
    have written := length_pos_of_ne_nil (printRange_ne_nil range)
    by_cases last : ranges = []
    · subst last
      exact written
    · rw [printRanges_cons last, length_append, length_cons, length_cons]
      omega

/-- A list of indices is read back from its range string. -/
theorem translateRangeStringToVector_translateVectorToRangeString
    (small : ∀ index ∈ indices, 0 ≤ index ∧ index < 2 ^ 31) :
    translateRangeStringToVector (translateVectorToRangeString indices) = (true, indices) := by
  cases indices with
  | nil => rfl
  | cons first indices =>
    have here := small first mem_cons_self
    have readable := readable_runsFrom (forall_mem_cons.1 small).2
        ⟨here.1, le_rfl, here.2⟩
    have text : translateVectorToRangeString (first :: indices) =
        printRanges (runsFrom indices first first) := vectorLoop_eq indices [] first first
    have digit := isDigit_head_printRanges (runsFrom_ne_nil indices first first) readable
    unfold translateRangeStringToVector
    rw [text, dropWhile_of_isDigit digit fun _ => isWhitespace_of_isDigit,
      translateRanges_printRanges readable (length_le_printRanges _), flatMap_runsFrom le_rfl,
      indicesUpTo_self]
    rfl

/-- Every vector of indices below `INT_MAX`, in any order and with repeats, is read back. -/
theorem rangeString_reads_back (indices : List Int)
    (small : ∀ index ∈ indices, 0 ≤ index ∧ index < 2 ^ 31 - 1) :
    translateRangeStringToVector (translateVectorToRangeString indices) = (true, indices) := by
  refine translateRangeStringToVector_translateVectorToRangeString fun index mem => ?_
  have bounds := small index mem
  omega

theorem rangeString_reads_back_repeats :
    translateRangeStringToVector (translateVectorToRangeString [3, 4, 4, 0, 2147483646]) =
      (true, [3, 4, 4, 0, 2147483646]) :=
  rangeString_reads_back _ (by decide)

end Torque.Numa
