import Torque.Text.Decimal
import Torque.Text.Numeral
import Mathlib.Data.List.TakeWhile

/-!
# Numbers whose base is read off the text

`strtol` and `strtoul` with base 0 take a number as hexadecimal behind `0x`, as octal
behind `0`, and as decimal otherwise.  What `decimal` prints has no leading zero, and is
read back as itself as long as the type can hold it.
-/

namespace Torque.Text

open List

variable {digits : List Char} {n : Nat}

/-- The value of a digit in any base, 36 for what is none. -/
def digitOf (c : Char) : Nat :=
  if c.isDigit then c.toNat - '0'.toNat
  else if 'a' ≤ c ∧ c ≤ 'z' then c.toNat - 'a'.toNat + 10
  else if 'A' ≤ c ∧ c ≤ 'Z' then c.toNat - 'A'.toNat + 10
  else 36

/-- The digits of the base at the beginning of a text, as a number. -/
def leadingNumeral (base : Nat) (text : List Char) : Nat :=
  numeral base ((text.map digitOf).takeWhile fun digit => decide (digit < base))

/-- A number without its sign. -/
def anyBase : List Char → Nat
  | '0' :: 'x' :: digits => leadingNumeral 16 digits
  | '0' :: 'X' :: digits => leadingNumeral 16 digits
  | '0' :: digits => leadingNumeral 8 digits
  | digits => leadingNumeral 10 digits

/-- The number that `strtol` with base 0 returns. -/
def strtolAnyBase (text : List Char) : Int :=
  match text.dropWhile isSpace with
  | '-' :: digits => saturate (-anyBase digits)
  | '+' :: digits => saturate (anyBase digits)
  | digits => saturate (anyBase digits)

/-- The number that `strtoul` with base 0 returns.  A number with a minus sign is negated
within the type. -/
def strtoulAnyBase (text : List Char) : Nat :=
  match text.dropWhile isSpace with
  | '-' :: digits => (2 ^ 64 - min (anyBase digits) (2 ^ 64 - 1)) % 2 ^ 64
  | '+' :: digits => min (anyBase digits) (2 ^ 64 - 1)
  | digits => min (anyBase digits) (2 ^ 64 - 1)

example : strtolAnyBase "0x1f".toList = 31 ∧ strtolAnyBase " -017".toList = -15 := by
  decide +kernel

theorem digitOf_of_isDigit {c : Char} (digit : c.isDigit = true) :
    digitOf c = c.toNat - '0'.toNat ∧ digitOf c < 10 := by
  have value : digitOf c = c.toNat - '0'.toNat := if_pos digit
  have bound := (Char.isDigit_iff_toNat.mp digit).2
  have zero : '0'.toNat = 48 := rfl
  have nine : '9'.toNat = 57 := rfl
  exact ⟨value, by omega⟩

/-- Decimal digits are read as a decimal number. -/
theorem leadingNumeral_of_digits (all : ∀ c ∈ digits, c.isDigit = true) :
    leadingNumeral 10 digits = digitsValue digits := by
  have taken : (digits.map digitOf).takeWhile (fun digit => decide (digit < 10)) =
      digits.map fun c => c.toNat - '0'.toNat := by
    have values : digits.map digitOf = digits.map fun c => c.toNat - '0'.toNat :=
      map_congr_left fun c mem => (digitOf_of_isDigit (all c mem)).1
    rw [← values, takeWhile_eq_self_iff]
    exact forall_mem_map.mpr fun c inside => decide_eq_true (digitOf_of_isDigit (all c inside)).2
  rw [leadingNumeral, taken, numeral, numeralFrom, foldl_map]
  rfl

/-- Only zero is printed with a zero in front. -/
theorem decimal_eq_zero_cons (printed : decimal n = '0' :: digits) : digits = [] := by
  by_contra more
  have value := digitsValue_decimal n
  rw [printed, ← singleton_append, digitsValue_append] at value
  have shorter : digitsValue digits < 10 ^ digits.length := by
    apply digitsValue_lt
    intro c mem
    apply isDigit_decimal (n := n)
    rw [printed]
    exact mem_cons_of_mem _ mem
  have zero : digitsValue ['0'] = 0 := rfl
  have length := (length_decimal_le_iff (length_pos_of_ne_nil more)).mpr
    (show n < 10 ^ digits.length by rw [← value, zero]; omega)
  rw [printed, length_cons] at length
  omega

theorem anyBase_decimal (n : Nat) : anyBase (decimal n) = n := by
  have ten := leadingNumeral_of_digits fun c (mem : c ∈ decimal n) => isDigit_decimal mem
  rw [digitsValue_decimal] at ten
  unfold anyBase
  split
  · next digits printed => cases decimal_eq_zero_cons printed
  · next digits printed => cases decimal_eq_zero_cons printed
  · next digits _ _ printed =>
    have value := digitsValue_decimal n
    rw [printed, decimal_eq_zero_cons printed] at value
    rw [decimal_eq_zero_cons printed, ← value]
    rfl
  · exact ten

theorem decimal_cons (n : Nat) :
    ∃ digit digits, decimal n = digit :: digits ∧ digit.isDigit = true := by
  obtain ⟨digit, digits, printed⟩ := exists_cons_of_ne_nil (decimal_ne_nil n)
  refine ⟨digit, digits, printed, isDigit_decimal (n := n) ?_⟩
  rw [printed]
  exact mem_cons_self

theorem strtolAnyBase_decimal (small : n < 2 ^ 63) : strtolAnyBase (decimal n) = n := by
  have value := anyBase_decimal n
  obtain ⟨digit, digits, printed, decimalDigit⟩ := decimal_cons n
  rw [printed] at value ⊢
  refine (unsigned_of_isDigit decimalDigit ..).trans ?_
  unfold saturate
  omega

theorem strtoulAnyBase_decimal (small : n < 2 ^ 64) : strtoulAnyBase (decimal n) = n := by
  have value := anyBase_decimal n
  obtain ⟨digit, digits, printed, decimalDigit⟩ := decimal_cons n
  rw [printed] at value ⊢
  refine (unsigned_of_isDigit decimalDigit ..).trans ?_
  omega

end Torque.Text
