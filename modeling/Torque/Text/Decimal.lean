import Torque.Text.Scan
import Mathlib.Tactic.Ring

/-!
# Decimal numbers in C strings

`decimal` is what `%d` prints of a number that is not negative, `strtol` reads a
number and says where it ends.  A printed number is read back as itself; one that
was cut off is read back as a smaller one.
-/

namespace Torque.Text

open List

variable {c : Char} {n k : Nat} {digits text : List Char}

/-- What `%d` prints. -/
def decimal (n : Nat) : List Char :=
  Nat.toDigits 10 n

/-- What `%d` prints for a number that may be negative. -/
def decimalInt (n : Int) : List Char :=
  if 0 ≤ n then decimal n.toNat else '-' :: decimal (-n).toNat

/-- `isspace`. -/
def isSpace (c : Char) : Bool :=
  c ∈ [' ', '\t', '\n', '\x0b', '\x0c', '\r']

/-- A number brought into the range of a `long`. -/
def saturate (n : Int) : Int :=
  max (-2 ^ 63) (min n (2 ^ 63 - 1))

/-- A `long` as an `int`. -/
def asInt (n : Int) : Int :=
  n.bmod (2 ^ 32)

/-- A number as a `short`. -/
def asShort (n : Int) : Int :=
  n.bmod (2 ^ 16)

/-- The digits at the beginning of a text as a number with the sign, and what is
behind them; the whole of `text` is left if there is no digit. -/
def signedNumber (sign : Int) (digits text : List Char) : Int × List Char :=
  if digits.takeWhile Char.isDigit = [] then (0, text)
  else (saturate (sign * leadingNumber digits), digits.dropWhile Char.isDigit)

/-- `strtol` with base 10: the number, and the text that follows it. -/
def strtol (text : List Char) : Int × List Char :=
  match text.dropWhile isSpace with
  | '-' :: digits => signedNumber (-1) digits text
  | '+' :: digits => signedNumber 1 digits text
  | digits => signedNumber 1 digits text

/-- A number as an `int`, by way of a `long`. -/
def narrowed (n : Int) : Int :=
  asInt (saturate n)

/-- `atoi`. -/
def atoi (text : List Char) : Int :=
  asInt (strtol text).1

/-- The number that stands at the beginning of a text. -/
def numberOf (text : List Char) : Int :=
  match text.dropWhile isSpace with
  | '-' :: digits => -leadingNumber digits
  | '+' :: digits => leadingNumber digits
  | digits => leadingNumber digits

theorem signedNumber_fst (sign : Int) (digits text : List Char) :
    (signedNumber sign digits text).1 = saturate (sign * leadingNumber digits) := by
  unfold signedNumber
  split
  next none => simp [leadingNumber, none, digitsValue, saturate]
  · rfl

theorem atoi_eq (text : List Char) : atoi text = narrowed (numberOf text) := by
  unfold atoi strtol numberOf narrowed
  split <;> simp [signedNumber_fst]

theorem asShort_of_lt {n : Int} (nonneg : 0 ≤ n) (small : n < 2 ^ 15) : asShort n = n := by
  unfold asShort
  rw [Int.bmod_eq_of_le] <;> omega

/-- What is not negative stays as it is only if it is an `int`. -/
theorem toNat_narrowed_iff {n : Int} : ((narrowed n).toNat : Int) = n ↔ 0 ≤ n ∧ n < 2 ^ 31 := by
  constructor
  · intro same
    have upper : narrowed n < (2 ^ 32 + 1) / 2 := Int.bmod_lt (by decide)
    omega
  · rintro ⟨nonneg, small⟩
    have kept : saturate n = n := by
      unfold saturate
      omega
    have fits : narrowed n = n := by
      rw [narrowed, kept, asInt, Int.bmod_eq_of_le] <;> omega
    rw [fits, Int.toNat_of_nonneg nonneg]

example : atoi " 4294967297%5".toList = 1 := by decide

/-! ## Printing -/

theorem isDigit_decimal (mem : c ∈ decimal n) : c.isDigit = true :=
  Nat.isDigit_of_mem_toDigits (by decide) (by decide) mem

theorem decimal_ne_nil (n : Nat) : decimal n ≠ [] :=
  Nat.toDigits_ne_nil

theorem digitsValue_decimal (n : Nat) : digitsValue (decimal n) = n :=
  Nat.ofDigitChars_toDigits (by decide) (by decide)

theorem length_decimal_le_iff (pos : 0 < k) : (decimal n).length ≤ k ↔ n < 10 ^ k :=
  Nat.length_toDigits_le_iff (by decide) pos

/-! ## Cutting off -/

theorem digitsValue_append (digits more : List Char) :
    digitsValue (digits ++ more) = digitsValue digits * 10 ^ more.length + digitsValue more := by
  rw [Nat.mul_comm]
  exact (Nat.ofDigitChars_append 0).trans Nat.ofDigitChars_eq_ofDigitChars_zero

/-- A number is less than the power of ten with as many zeros as it has digits. -/
theorem digitsValue_lt (all : ∀ c ∈ digits, c.isDigit = true) :
    digitsValue digits < 10 ^ digits.length := by
  induction digits with
  | nil => decide
  | cons digit digits ih =>
    have rest := ih (forall_mem_cons.mp all).2
    have split := digitsValue_append [digit] digits
    have small : digitsValue [digit] ≤ 9 := by
      have bounds := all digit mem_cons_self
      simp only [Char.isDigit, ge_iff_le, Bool.and_eq_true, decide_eq_true_eq,
        UInt32.le_iff_toNat_le] at bounds
      have most : digit.toNat ≤ 57 := bounds.2
      simp only [digitsValue, foldl_cons, foldl_nil, Nat.mul_zero, Nat.zero_add]
      have zero : '0'.toNat = 48 := rfl
      omega
    have scaled := Nat.mul_le_mul_right (10 ^ digits.length) small
    rw [singleton_append] at split
    rw [length_cons, Nat.pow_succ]
    omega

theorem digitsValue_take_le (digits : List Char) (k : Nat) :
    digitsValue (digits.take k) ≤ digitsValue digits := by
  have whole := digitsValue_append (digits.take k) (digits.drop k)
  rw [take_append_drop] at whole
  have scaled : digitsValue (digits.take k) * 1 ≤
      digitsValue (digits.take k) * 10 ^ (digits.drop k).length :=
    Nat.mul_le_mul_left _ (Nat.one_le_pow _ _ (by decide))
  omega

/-- A number that is cut off is read as a smaller one. -/
theorem digitsValue_take_lt (cut : k < digits.length) (pos : 0 < digitsValue digits) :
    digitsValue (digits.take k) < digitsValue digits := by
  have whole := digitsValue_append (digits.take k) (digits.drop k)
  rw [take_append_drop] at whole
  have more : 10 ^ 1 ≤ 10 ^ (digits.drop k).length := by
    apply Nat.pow_le_pow_right (by decide)
    rw [length_drop]
    omega
  have scaled := Nat.mul_le_mul_left (digitsValue (digits.take k)) more
  omega

/-! ## Reading -/

theorem isSpace_of_isDigit (digit : c.isDigit = true) : isSpace c = false := by
  rw [Bool.eq_false_iff]
  intro space
  simp only [isSpace, mem_cons, not_mem_nil, or_false, decide_eq_true_eq] at space
  rcases space with rfl | rfl | rfl | rfl | rfl | rfl <;> exact absurd digit (by decide)

/-- A text that begins with a digit begins neither with blanks nor with a sign. -/
theorem unsigned_of_isDigit {α : Type*} (digit : c.isDigit = true) (text : List Char)
    (minus plus other : List Char → α) :
    (match (c :: text).dropWhile isSpace with
      | '-' :: digits => minus digits
      | '+' :: digits => plus digits
      | digits => other digits) = other (c :: text) := by
  rw [dropWhile_cons_of_neg (by simp [isSpace_of_isDigit digit])]
  split
  · next equal =>
    cases equal
    cases digit
  · next equal =>
    cases equal
    cases digit
  · rfl

/-- Digits are read up to the first character that is none. -/
theorem strtol_digits {rest : List Char} (some : digits ≠ []) (all : ∀ c ∈ digits, c.isDigit = true)
    (stop : ∀ c, rest.head? = .some c → c.isDigit = false) (small : digitsValue digits < 2 ^ 63) :
    strtol (digits ++ rest) = ((digitsValue digits : Int), rest) := by
  obtain ⟨d, ds, rfl⟩ := exists_cons_of_ne_nil some
  have digit := all d mem_cons_self
  have ended : rest.takeWhile Char.isDigit = [] ∧ rest.dropWhile Char.isDigit = rest := by
    cases rest with
    | nil => exact ⟨rfl, rfl⟩
    | cons c rest =>
      have no := stop c rfl
      exact ⟨takeWhile_cons_of_neg (by simp [no]),
        dropWhile_cons_of_neg (by simp [no])⟩
  have taken : (d :: ds ++ rest).takeWhile Char.isDigit = d :: ds := by
    rw [takeWhile_append_of_pos all, ended.1, append_nil]
  have dropped : (d :: ds ++ rest).dropWhile Char.isDigit = rest := by
    rw [dropWhile_append_of_pos all, ended.2]
  have unsigned : strtol (d :: ds ++ rest) = signedNumber 1 (d :: ds ++ rest) (d :: ds ++ rest) :=
    unsigned_of_isDigit digit ..
  rw [unsigned, signedNumber, taken, dropped, if_neg (cons_ne_nil d ds), leadingNumber, taken]
  have inRange : saturate (1 * (digitsValue (d :: ds) : Int)) = digitsValue (d :: ds) := by
    unfold saturate
    omega
  rw [inRange]

theorem signedNumber_suffix {sign : Int} (suffix : digits <:+ text) :
    (signedNumber sign digits text).2 <:+ text := by
  unfold signedNumber
  split
  · exact suffix_rfl
  · exact (dropWhile_suffix _).trans suffix

/-- What follows the number is the end of the text. -/
theorem strtol_suffix (text : List Char) : (strtol text).2 <:+ text := by
  have skipped : text.dropWhile isSpace <:+ text := dropWhile_suffix _
  unfold strtol
  split
  · rename_i equal
    rw [equal] at skipped
    exact signedNumber_suffix ((suffix_cons _ _).trans skipped)
  · rename_i equal
    rw [equal] at skipped
    exact signedNumber_suffix ((suffix_cons _ _).trans skipped)
  · exact signedNumber_suffix skipped

/-- A number that is read takes some of the text. -/
theorem length_strtol_lt (moved : (strtol text).2 ≠ text) :
    (strtol text).2.length < text.length := by
  have suffix := strtol_suffix text
  apply lt_of_le_of_ne suffix.length_le
  intro equal
  exact moved (suffix.eq_of_length equal)

theorem asInt_of_lt (small : n < 2 ^ 31) : asInt n = n := by
  unfold asInt
  rw [Int.bmod_eq_of_le] <;> omega

end Torque.Text
