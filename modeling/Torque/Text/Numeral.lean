import Mathlib.Tactic.Ring

/-!
# Numerals

The number that a list of digits is, the most significant digit first.  A value is
kept while the digits are read, and each digit is added to the base times the value.
-/

namespace Torque.Text

/-- The digits read behind a value. -/
def numeralFrom (base value : Nat) (digits : List Nat) : Nat :=
  digits.foldl (fun value digit => base * value + digit) value

/-- The number that the digits are. -/
def numeral (base : Nat) (digits : List Nat) : Nat :=
  numeralFrom base 0 digits

variable {base value : Nat} {digits more : List Nat}

@[simp]
theorem numeralFrom_nil : numeralFrom base value [] = value :=
  rfl

@[simp]
theorem numeralFrom_cons (digit : Nat) :
    numeralFrom base value (digit :: digits) = numeralFrom base (base * value + digit) digits :=
  rfl

theorem numeralFrom_append :
    numeralFrom base value (digits ++ more) =
      numeralFrom base (numeralFrom base value digits) more :=
  List.foldl_append

/-- The value before the digits is shifted by their number. -/
theorem numeralFrom_eq (base value : Nat) (digits : List Nat) :
    numeralFrom base value digits = value * base ^ digits.length + numeral base digits := by
  induction digits generalizing value with
  | nil => simp [numeral]
  | cons digit digits ih =>
    rw [numeral, numeralFrom_cons, numeralFrom_cons, ih, ih, List.length_cons]
    ring

theorem numeral_cons (digit : Nat) :
    numeral base (digit :: digits) = digit * base ^ digits.length + numeral base digits := by
  rw [numeral, numeralFrom_cons, numeralFrom_eq, Nat.mul_zero, Nat.zero_add]

/-- So many digits are less than the power of the base. -/
theorem numeral_lt (small : ∀ digit ∈ digits, digit < base) :
    numeral base digits < base ^ digits.length := by
  induction digits with
  | nil => exact Nat.one_pos
  | cons digit digits ih =>
    have rest := ih (List.forall_mem_cons.mp small).2
    have first : digit + 1 ≤ base := small digit List.mem_cons_self
    calc numeral base (digit :: digits)
        = digit * base ^ digits.length + numeral base digits := numeral_cons digit
      _ < (digit + 1) * base ^ digits.length := by rw [Nat.add_one_mul]; omega
      _ ≤ base * base ^ digits.length := Nat.mul_le_mul_right _ first
      _ = base ^ (digits.length + 1) := (Nat.pow_succ').symm

/-- With a first digit that is not zero, the number is at least the power of the base
below it. -/
theorem pow_le_numeral {first : Nat} (positive : 0 < first) :
    base ^ digits.length ≤ numeral base (first :: digits) := by
  rw [numeral_cons]
  exact (Nat.le_mul_of_pos_left _ positive).trans (Nat.le_add_right _ _)

/-- Of two numbers with equally many digits, the first digit that differs decides. -/
theorem numeral_cons_lt_of_lt {left right : Nat} {lefts rights : List Nat}
    (same : lefts.length = rights.length) (small : ∀ digit ∈ lefts, digit < base)
    (less : left < right) :
    numeral base (left :: lefts) < numeral base (right :: rights) := by
  have below := numeral_lt small
  have step := Nat.mul_le_mul_right (base ^ lefts.length) (Nat.succ_le_of_lt less)
  rw [Nat.succ_mul] at step
  rw [numeral_cons, numeral_cons, ← same]
  omega

end Torque.Text
