import Mathlib.Tactic.Positivity

/-!
# Numbers in binary32

The finite numbers of the format are multiples of the least positive one, of which 2^149 make
one.  Sums and quotients are rounded to 24 binary digits, a tie to the even neighbour.  Numbers
beyond the greatest finite one are not told apart from finite ones.
-/

namespace Torque.Arith

/-- A finite number, in units of the least positive one. -/
structure Binary32 where
  units : Int
  deriving DecidableEq, Repr

namespace Binary32

/-- The units of one. -/
def one : Nat :=
  2 ^ 149

/-- A quotient rounded to 24 binary digits, or to units if it is smaller than that. -/
def roundQuot (p q : Nat) : Nat :=
  let digit := 2 ^ (Nat.log2 (p / q) - 23)
  let lower := p / (q * digit)
  let rest := p % (q * digit)
  if 2 * rest < q * digit ∨ 2 * rest = q * digit ∧ lower % 2 = 0 then lower * digit
  else (lower + 1) * digit

/-- A sum of a multiple of the last digit and of less than a half of it. -/
theorem roundQuot_one {n e lower rest : Nat} (low : 2 ^ (e + 23) ≤ n) (high : n < 2 ^ (e + 24))
    (sum : n = lower * 2 ^ e + rest) (inside : rest < 2 ^ e)
    (down : 2 * rest < 2 ^ e ∨ 2 * rest = 2 ^ e ∧ lower % 2 = 0) :
    roundQuot n 1 = lower * 2 ^ e := by
  have log : Nat.log2 n - 23 = e := by
    have pos := Nat.two_pow_pos (e + 23)
    have eq := (Nat.log2_eq_iff (by omega)).mpr ⟨low, high⟩
    omega
  have quotient : n / 2 ^ e = lower := by
    rw [sum, Nat.mul_comm, Nat.mul_add_div (by positivity), Nat.div_eq_of_lt inside, Nat.add_zero]
  have remainder : n % 2 ^ e = rest := by
    rw [sum, Nat.mul_comm, Nat.mul_add_mod, Nat.mod_eq_of_lt inside]
  simp only [roundQuot, Nat.div_one, Nat.one_mul, log, quotient, remainder, if_pos down]

/-- A number that has a digit for all of it is not rounded. -/
theorem roundQuot_of_dvd {n e : Nat} (high : n < 2 ^ (e + 24)) (exact : 2 ^ e ∣ n) :
    roundQuot n 1 = n := by
  have digits : 2 ^ (Nat.log2 n - 23) ∣ n := by
    refine (Nat.pow_dvd_pow 2 ?_).trans exact
    rcases Nat.eq_zero_or_pos n with rfl | pos
    · simp
    · have := (Nat.log2_lt pos.ne').mpr high
      omega
  have none := Nat.mod_eq_zero_of_dvd digits
  simp only [roundQuot, Nat.div_one, Nat.one_mul, none, Nat.mul_zero]
  rw [if_pos (.inl (by positivity)), Nat.div_mul_cancel digits]

/-- The number next to so many units, divided by a number. -/
def ofQuot (p : Int) (q : Nat) : Binary32 :=
  ⟨p.sign * roundQuot p.natAbs q⟩

/-- The number next to an integer. -/
def ofInt (n : Int) : Binary32 :=
  ofQuot (n * one) 1

/-- The sum, rounded. -/
def add (x y : Binary32) : Binary32 :=
  ofQuot (x.units + y.units) 1

/-- The quotient, rounded. -/
def div (x y : Binary32) : Binary32 :=
  ofQuot (x.units * one * y.units.sign) y.units.natAbs

theorem add_natCast (m n : Nat) : add ⟨m⟩ ⟨n⟩ = ⟨roundQuot (m + n) 1⟩ := by
  rcases Nat.eq_zero_or_pos (m + n) with none | some
  · obtain ⟨rfl, rfl⟩ : m = 0 ∧ n = 0 := by omega
    decide
  · have sign : (m + n : Int).sign = 1 := Int.sign_eq_one_of_pos (by omega)
    have abs : (m + n : Int).natAbs = m + n := by omega
    simp only [add, ofQuot, sign, abs, Int.one_mul]

/-- The integer next to the number, a tie upwards. -/
def nearest (x : Binary32) : Int :=
  (2 * x.units + one) / (2 * one)

end Binary32

end Torque.Arith
