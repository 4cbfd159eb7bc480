import Torque.Dis.Reader
import Torque.Text.Numeral

/-!
# The format of DIS integers

A DIS integer is a sign and the digits of its magnitude.  A magnitude of several
digits is preceded by their count, a count of several digits by the count of its
digits, and so on, down to a count of one digit.

The format is that of an unsigned type, `unsigned int` or `unsigned long`, whose greatest
number bounds the magnitude and all counts.
-/

namespace Torque.Dis

open Torque.Text List

variable {byte : UInt8} {digits : List UInt8}

/-! ## Strings of digits -/

/-- A character that is a decimal digit. -/
def IsDigit (byte : UInt8) : Prop :=
  48 ≤ byte ∧ byte ≤ 57
deriving Decidable

/-- The number that a digit stands for. -/
def digitNat (byte : UInt8) : Nat :=
  byte.toNat - 48

/-- The number that a string of digits is. -/
def digitsNat (digits : List UInt8) : Nat :=
  numeral 10 (digits.map digitNat)

theorem isDigit_iff : IsDigit byte ↔ 48 ≤ byte.toNat ∧ byte.toNat ≤ 57 := by
  rfl

theorem digitNat_lt (digit : IsDigit byte) : digitNat byte < 10 := by
  have range := isDigit_iff.mp digit
  unfold digitNat
  omega

theorem digitNat_lt_of_mem (all : ∀ byte ∈ digits, IsDigit byte) :
    ∀ digit ∈ digits.map digitNat, digit < 10 :=
  forall_mem_map.mpr fun byte member => digitNat_lt (all byte member)

theorem digitsNat_lt (all : ∀ byte ∈ digits, IsDigit byte) :
    digitsNat digits < 10 ^ digits.length := by
  have below := numeral_lt (digitNat_lt_of_mem all)
  rwa [length_map] at below

/-- Two strings of equally many digits compare as their numbers do. -/
theorem memcmpPos_eq_true_iff {left right : List UInt8} (same : left.length = right.length)
    (leftDigits : ∀ byte ∈ left, IsDigit byte) (rightDigits : ∀ byte ∈ right, IsDigit byte) :
    memcmpPos left right = true ↔ digitsNat right < digitsNat left := by
  induction left generalizing right with
  | nil =>
    cases right with
    | nil => simp [memcmpPos]
    | cons byte bytes => cases same
  | cons first left ih =>
    cases right with
    | nil => cases same
    | cons second right =>
      have same : left.length = right.length := Nat.succ.inj same
      have firstDigit := isDigit_iff.mp (leftDigits first mem_cons_self)
      have secondDigit := isDigit_iff.mp (rightDigits second mem_cons_self)
      have leftDigits : ∀ byte ∈ left, IsDigit byte := fun byte mem =>
        leftDigits byte (mem_cons_of_mem _ mem)
      have rightDigits : ∀ byte ∈ right, IsDigit byte := fun byte mem =>
        rightDigits byte (mem_cons_of_mem _ mem)
      have sameMap : (left.map digitNat).length = (right.map digitNat).length := by
        rw [length_map, length_map, same]
      rw [memcmpPos]
      by_cases equal : first = second
      · rw [if_pos equal, ih same leftDigits rightDigits, equal]
        simp only [digitsNat, map_cons, numeral_cons, sameMap]
        omega
      · rw [if_neg equal, decide_eq_true_iff, UInt8.lt_iff_toNat_lt]
        have apart : first.toNat ≠ second.toNat := fun eq => equal (UInt8.toNat_inj.mp eq)
        constructor
        · intro less
          refine numeral_cons_lt_of_lt sameMap.symm (digitNat_lt_of_mem rightDigits) ?_
          unfold digitNat
          omega
        · intro less
          by_contra notLess
          have other : digitsNat (first :: left) < digitsNat (second :: right) := by
            refine numeral_cons_lt_of_lt sameMap (digitNat_lt_of_mem leftDigits) ?_
            unfold digitNat
            omega
          omega

/-! ## Numbers of a type -/

/-- What the readers know of an unsigned type: its width and the digits of its
greatest number. -/
structure IntFormat where
  bits : Nat
  greatest : List UInt8
  digits : ∀ byte ∈ greatest, IsDigit byte
  value : digitsNat greatest + 1 = 2 ^ bits
  shorter : 10 ^ (greatest.length - 1) ≤ 2 ^ bits
  several : 2 ≤ greatest.length

theorem isDigit_disUmax : ∀ byte ∈ disUmax, IsDigit byte := by
  have all : disUmax.all (fun byte => decide (IsDigit byte)) = true := rfl
  simpa using all

theorem digitsNat_disUmax : digitsNat disUmax + 1 = 2 ^ 32 := by
  decide +kernel

/-- `unsigned int`, with the digits that `disiui_` stores. -/
def unsignedInt : IntFormat where
  bits := 32
  greatest := disUmax
  digits := isDigit_disUmax
  value := digitsNat_disUmax
  shorter := by decide
  several := by decide

/-- `ulmax`: the digits of `ULONG_MAX`. -/
def ulmax : List UInt8 :=
  [49, 56, 52, 52, 54, 55, 52, 52, 48, 55, 51, 55, 48, 57, 53, 53, 49, 54, 49, 53]

theorem isDigit_ulmax : ∀ byte ∈ ulmax, IsDigit byte := by
  have all : ulmax.all (fun byte => decide (IsDigit byte)) = true := rfl
  simpa using all

theorem digitsNat_ulmax : digitsNat ulmax + 1 = 2 ^ 64 := by
  decide +kernel

/-- `unsigned long` on an LP64 platform. -/
def unsignedLong : IntFormat where
  bits := 64
  greatest := ulmax
  digits := isDigit_ulmax
  value := digitsNat_ulmax
  shorter := by decide
  several := by decide

namespace IntFormat

variable (fmt : IntFormat)

/-- The number of digits is a number of the type. -/
theorem length_greatest_lt : fmt.greatest.length < 2 ^ fmt.bits := by
  obtain ⟨more, length⟩ : ∃ more, fmt.greatest.length = more + 2 :=
    ⟨fmt.greatest.length - 2, by have several := fmt.several; omega⟩
  have power : more < 10 ^ more := Nat.lt_pow_self (by decide)
  calc fmt.greatest.length = more + 2 := length
    _ < 10 * 10 ^ more := by omega
    _ = 10 ^ (fmt.greatest.length - 1) := by rw [length, ← Nat.pow_succ']; rfl
    _ ≤ 2 ^ fmt.bits := fmt.shorter

/-- A string of digits that is a number of the type.  Leading zeros count as digits. -/
structure Fits (digits : List UInt8) : Prop where
  nonempty : digits ≠ []
  all : ∀ byte ∈ digits, IsDigit byte
  short : digits.length ≤ fmt.greatest.length
  small : digitsNat digits < 2 ^ fmt.bits

variable {fmt}

/-- What the readers test: the number of the digits, and for as many digits as the
greatest number has the digits themselves. -/
theorem fits_iff (nonempty : digits ≠ []) (all : ∀ byte ∈ digits, IsDigit byte) :
    fmt.Fits digits ↔ ¬ fmt.greatest.length < digits.length ∧
      ¬ (digits.length = fmt.greatest.length ∧ memcmpPos digits fmt.greatest = true) := by
  have value := fmt.value
  constructor
  · intro fits
    refine ⟨Nat.not_lt.mpr fits.short, ?_⟩
    rintro ⟨same, greater⟩
    have less := (memcmpPos_eq_true_iff same all fmt.digits).mp greater
    have small := fits.small
    omega
  · rintro ⟨short, notGreater⟩
    refine ⟨nonempty, all, Nat.not_lt.mp short, ?_⟩
    by_cases same : digits.length = fmt.greatest.length
    · have notLess : ¬ digitsNat fmt.greatest < digitsNat digits := fun less =>
        notGreater ⟨same, (memcmpPos_eq_true_iff same all fmt.digits).mpr less⟩
      omega
    · calc digitsNat digits < 10 ^ digits.length := digitsNat_lt all
        _ ≤ 10 ^ (fmt.greatest.length - 1) := Nat.pow_le_pow_right (by decide) (by omega)
        _ ≤ 2 ^ fmt.bits := fmt.shorter

end IntFormat

/-! ## The format -/

/-- The DIS integers whose first count has `count` digits: the bytes, whether the sign
is a minus, and the magnitude. -/
inductive DisInteger (fmt : IntFormat) : Nat → List UInt8 → Bool → Nat → Prop
  | magnitude (sign : UInt8) (digits : List UInt8) (signed : sign = 43 ∨ sign = 45)
      (fits : fmt.Fits digits) :
      DisInteger fmt digits.length (sign :: digits) (decide (sign = 45)) (digitsNat digits)
  | counted (first : UInt8) (digits item : List UInt8) (negate : Bool) (value : Nat)
      (nonzero : first ≠ 48) (fits : fmt.Fits (first :: digits))
      (counts : DisInteger fmt (digitsNat (first :: digits)) item negate value) :
      DisInteger fmt (digits.length + 1) (first :: digits ++ item) negate value

namespace DisInteger

variable {fmt : IntFormat} {count value : Nat} {item : List UInt8} {negate : Bool}

section

variable (integer : DisInteger fmt count item negate value)
include integer

theorem count_pos : 0 < count := by
  cases integer with
  | magnitude sign digits signed fits => exact length_pos_iff.mpr fits.nonempty
  | counted => exact Nat.succ_pos _

theorem count_le : count ≤ fmt.greatest.length := by
  cases integer with
  | magnitude sign digits signed fits => exact fits.short
  | counted first digits item negate value nonzero fits counts => exact fits.short

theorem value_lt : value < 2 ^ fmt.bits := by
  induction integer with
  | magnitude sign digits signed fits => exact fits.small
  | counted first digits item negate value nonzero fits counts ih => exact ih

/-- An integer in front of a stream is the only one, in whatever format. -/
theorem unique {fmt' : IntFormat} {other rest rest' : List UInt8} {negate' : Bool}
    {value' : Nat} (integer' : DisInteger fmt' count other negate' value')
    (same : item ++ rest = other ++ rest') :
    item = other ∧ negate = negate' ∧ value = value' := by
  have unsigned {sign : UInt8} (signed : sign = 43 ∨ sign = 45) : ¬ IsDigit sign := by
    rcases signed with rfl | rfl <;> decide
  induction integer generalizing other with
  | magnitude sign digits signed fits =>
    generalize length : digits.length = count at integer'
    cases integer' with
    | magnitude sign' digits' signed' fits' =>
      obtain ⟨rfl, tails⟩ := cons_eq_cons.mp same
      obtain ⟨rfl, _⟩ := append_inj tails length
      exact ⟨rfl, rfl, rfl⟩
    | counted first' digits' item' _ _ nonzero' fits' counts' =>
      obtain ⟨rfl, _⟩ := cons_eq_cons.mp same
      exact absurd (fits'.all _ mem_cons_self) (unsigned signed)
  | counted first digits item negate value nonzero fits counts ih =>
    generalize length : digits.length + 1 = count at integer'
    cases integer' with
    | magnitude sign' digits' signed' fits' =>
      obtain ⟨rfl, _⟩ := cons_eq_cons.mp same
      exact absurd (fits.all _ mem_cons_self) (unsigned signed')
    | counted first' digits' item' _ _ nonzero' fits' counts' =>
      rw [append_assoc, append_assoc] at same
      obtain ⟨rfl, tails⟩ := cons_eq_cons.mp same
      obtain ⟨rfl, items⟩ := append_inj tails (Nat.succ.inj length)
      obtain ⟨rfl, rfl, rfl⟩ := ih counts' items
      exact ⟨rfl, rfl, rfl⟩

end

end DisInteger

end Torque.Dis
