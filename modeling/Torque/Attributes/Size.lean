import Mathlib.Algebra.Order.Group.Nat

/-!
# Attributes of type size

A size is a number with a binary shift, in bytes or in words.  `normalize_size` brings
two sizes to one unit and one shift.  It tests the shift for an overflow, but not the
conversion of words to bytes, and it gives up on shifts that are far apart, whatever the
numbers are.
-/

namespace Torque.Attributes

/-- `atsv_units`. -/
inductive SizeUnits where
  | bytes
  | words
  deriving DecidableEq

/-- The bytes of a unit; a word is an `int`. -/
def SizeUnits.width : SizeUnits → Nat
  | .bytes => 1
  | .words => 4

/-- `struct size_value`. -/
structure SizeValue where
  num : BitVec 64
  shift : Nat
  units : SizeUnits

namespace SizeValue

variable (a : SizeValue) (b : SizeValue)

/-- If the other size is in bytes, then both must be. -/
def toUnitsOf : SizeValue :=
  if a.units = .words ∧ b.units ≠ .words then { a with num := a.num * 4, units := .bytes } else a

/-- A size with a smaller shift, unless that would overflow. -/
def lower (shift : Nat) : Option SizeValue :=
  let adj := a.shift - shift
  if adj > 32 ∨ a.num <<< adj >>> adj ≠ a.num then none
  else some { a with shift := shift, num := a.num <<< adj }

/-- The number in the units of the size. -/
def scaled : Nat :=
  a.num.toNat * 2 ^ a.shift

/-- The number of bytes that a size denotes. -/
def bytes : Nat :=
  a.units.width * a.scaled

/-- What is kept of the bytes beside another size: `64` bits if that is in bytes. -/
def kept : Nat :=
  if b.units = .words then a.bytes else a.bytes % 2 ^ (64 + a.shift)

end SizeValue

open SizeValue

/-- `normalize_size`. -/
def normalizeSize (a b : SizeValue) : Option (SizeValue × SizeValue) :=
  let ta := a.toUnitsOf b
  let tb := b.toUnitsOf a
  if ta.shift > tb.shift then (ta.lower tb.shift).map (·, tb)
  else if ta.shift < tb.shift then (tb.lower ta.shift).map (ta, ·)
  else some (ta, tb)

variable {a b : SizeValue}

theorem scaled_lt (a : SizeValue) : a.scaled < 2 ^ (64 + a.shift) := by
  rw [scaled, Nat.pow_add, Nat.mul_lt_mul_right (Nat.two_pow_pos _)]
  exact a.num.isLt

@[simp]
theorem toUnitsOf_shift : (a.toUnitsOf b).shift = a.shift := by
  unfold toUnitsOf
  split <;> rfl

theorem toUnitsOf_width : (a.toUnitsOf b).units.width = min a.units.width b.units.width := by
  unfold toUnitsOf
  cases units : a.units <;> cases units' : b.units <;> simp [units, SizeUnits.width]

theorem toUnitsOf_bytes : (a.toUnitsOf b).bytes = a.kept b := by
  have wraps : a.num.toNat * 4 % 2 ^ 64 * 2 ^ a.shift =
      4 * (a.num.toNat * 2 ^ a.shift) % 2 ^ (64 + a.shift) := by
    rw [Nat.pow_add, ← Nat.mul_assoc, Nat.mul_comm 4, Nat.mul_mod_mul_right]
  have small := Nat.mod_eq_of_lt (scaled_lt a)
  unfold toUnitsOf kept bytes
  cases units : a.units <;> cases units' : b.units <;> simp_all [scaled, SizeUnits.width]

theorem kept_eq :
    a.kept b = min a.units.width b.units.width * (a.toUnitsOf b).scaled := by
  rw [← toUnitsOf_bytes, bytes, toUnitsOf_width]

theorem width_pos : 0 < min a.units.width b.units.width := by
  cases a.units <;> cases b.units <;> decide

theorem kept_eq_or (a b : SizeValue) : a.kept b = a.bytes ∨ b.kept a = b.bytes := by
  have small := Nat.mod_eq_of_lt (scaled_lt a)
  unfold kept bytes
  cases units : a.units <;> simp_all [SizeUnits.width]

theorem kept_le : a.kept b ≤ a.bytes := by
  unfold kept
  split
  · exact le_rfl
  · exact Nat.mod_le _ _

/-- A shift is lowered exactly if it is near and the number still fits. -/
theorem lower_cases {shift : Nat} (le : shift ≤ a.shift) :
    (∃ t, a.lower shift = some t ∧ t.shift = shift ∧ t.units = a.units ∧ t.scaled = a.scaled ∧
      a.shift ≤ shift + 32 ∧ a.scaled < 2 ^ (64 + shift)) ∨
    (a.lower shift = none ∧ (shift + 32 < a.shift ∨ 2 ^ (64 + shift) ≤ a.scaled)) := by
  obtain ⟨adj, high⟩ := Nat.exists_eq_add_of_le' le
  have adjEq : a.shift - shift = adj := by omega
  have scaled : a.scaled = a.num.toNat * 2 ^ adj * 2 ^ shift := by
    rw [SizeValue.scaled, high, Nat.pow_add, Nat.mul_assoc]
  have back (small : adj ≤ 32) :
      a.num <<< adj >>> adj = a.num ↔ a.num.toNat * 2 ^ adj < 2 ^ 64 := by
    have split : 2 ^ 64 = 2 ^ (64 - adj) * 2 ^ adj := by
      rw [← Nat.pow_add, Nat.sub_add_cancel (small.trans (by decide))]
    rw [← BitVec.toNat_inj, BitVec.toNat_ushiftRight, BitVec.toNat_shiftLeft, Nat.shiftLeft_eq,
      Nat.shiftRight_eq_div_pow, split, Nat.mul_mod_mul_right,
      Nat.mul_div_cancel _ (Nat.two_pow_pos adj), Nat.mul_lt_mul_right (Nat.two_pow_pos adj)]
    exact ⟨fun same => same ▸ Nat.mod_lt _ (Nat.two_pow_pos _), Nat.mod_eq_of_lt⟩
  have fits : a.num.toNat * 2 ^ adj < 2 ^ 64 ↔ a.scaled < 2 ^ (64 + shift) := by
    rw [scaled, Nat.pow_add, Nat.mul_lt_mul_right (Nat.two_pow_pos shift)]
  unfold lower
  simp only [adjEq]
  by_cases near : adj ≤ 32
  · by_cases small : a.scaled < 2 ^ (64 + shift)
    · have same := (back near).mpr (fits.mpr small)
      refine .inl ⟨_, if_neg (by simp [near, same]), rfl, rfl, ?_, by omega, small⟩
      rw [scaled, SizeValue.scaled, BitVec.toNat_shiftLeft, Nat.shiftLeft_eq,
        Nat.mod_eq_of_lt (fits.mpr small)]
    · refine .inr ⟨if_pos (.inr fun same => ?_), .inr (Nat.not_lt.mp small)⟩
      exact small (fits.mp ((back near).mp same))
  · exact .inr ⟨if_pos (.inl (Nat.not_le.mp near)), .inl (by omega)⟩

/-- The shifts are near, and both sizes fit into `64` bits with the smaller one. -/
structure Normal (a b : SizeValue) : Prop where
  nearLeft : a.shift ≤ b.shift + 32
  nearRight : b.shift ≤ a.shift + 32
  left : (a.toUnitsOf b).scaled < 2 ^ (64 + min a.shift b.shift)
  right : (b.toUnitsOf a).scaled < 2 ^ (64 + min a.shift b.shift)

/-- Two sizes get one unit and the smaller shift. -/
theorem normalizeSize_cases (a b : SizeValue) :
    (∃ ta tb, normalizeSize a b = some (ta, tb) ∧
      ta.shift = min a.shift b.shift ∧ tb.shift = min a.shift b.shift ∧
      ta.units = (a.toUnitsOf b).units ∧ ta.scaled = (a.toUnitsOf b).scaled ∧
      tb.scaled = (b.toUnitsOf a).scaled ∧ Normal a b) ∨
    (normalizeSize a b = none ∧ ¬ Normal a b) := by
  have smallA := scaled_lt (a.toUnitsOf b)
  have smallB := scaled_lt (b.toUnitsOf a)
  have casesA := @lower_cases (a.toUnitsOf b) b.shift
  have casesB := @lower_cases (b.toUnitsOf a) a.shift
  unfold normalizeSize
  simp only [toUnitsOf_shift] at smallA smallB casesA casesB ⊢
  rcases Nat.lt_trichotomy b.shift a.shift with less | same | greater
  · rw [if_pos less, Nat.min_eq_right less.le]
    rcases casesA less.le with ⟨t, lowered, shift, units, scaled, near, small⟩ | ⟨lowered, not⟩
    · rw [lowered]
      refine .inl ⟨t, _, rfl, shift, toUnitsOf_shift, units, scaled, rfl, ?_⟩
      exact ⟨near, by omega, by rwa [Nat.min_eq_right less.le], by rwa [Nat.min_eq_right less.le]⟩
    · rw [lowered]
      refine .inr ⟨rfl, fun normal => ?_⟩
      have := normal.nearLeft
      have := Nat.min_eq_right less.le ▸ normal.left
      omega
  · rw [if_neg (by omega), if_neg (by omega), same, Nat.min_self]
    refine .inl ⟨_, _, rfl, by simp, by simp [same], rfl, rfl, rfl, ?_⟩
    exact ⟨by omega, by omega, by rwa [same, Nat.min_self], by rwa [same, Nat.min_self, ← same]⟩
  · rw [if_neg greater.not_gt, if_pos greater, Nat.min_eq_left greater.le]
    rcases casesB greater.le with ⟨t, lowered, shift, units, scaled, near, small⟩ | ⟨lowered, not⟩
    · rw [lowered]
      refine .inl ⟨_, t, rfl, toUnitsOf_shift, shift, rfl, rfl, scaled, ?_⟩
      exact ⟨by omega, near, by rwa [Nat.min_eq_left greater.le], by rwa [Nat.min_eq_left greater.le]⟩
    · rw [lowered]
      refine .inr ⟨rfl, fun normal => ?_⟩
      have := normal.nearRight
      have := Nat.min_eq_left greater.le ▸ normal.right
      omega

/-! ## Comparing -/

/-- The results of a comparison. -/
def order (x y : Nat) : Int :=
  if x > y then 1 else if x < y then -1 else 0

/-- `comp_size`.  Sizes that cannot be normalized are compared by their shifts. -/
def compSize (a b : SizeValue) : Int :=
  match normalizeSize a b with
  | none => order (a.toUnitsOf b).shift (b.toUnitsOf a).shift
  | some (ta, tb) => order ta.num.toNat tb.num.toNat

theorem order_mul {k : Nat} (positive : 0 < k) (x y : Nat) : order (k * x) (k * y) = order x y := by
  simp only [order, gt_iff_lt, Nat.mul_lt_mul_left positive]

theorem order_kept :
    order (a.kept b) (b.kept a) = order (a.toUnitsOf b).scaled (b.toUnitsOf a).scaled := by
  rw [kept_eq, kept_eq, Nat.min_comm]
  exact order_mul width_pos _ _

/-- Sizes whose shifts are not far apart are compared by what is kept of them. -/
theorem compSize_eq (a b : SizeValue) : compSize a b =
    if b.shift + 32 < a.shift then 1 else if a.shift + 32 < b.shift then -1
    else order (a.kept b) (b.kept a) := by
  have smallA := scaled_lt (a.toUnitsOf b)
  have smallB := scaled_lt (b.toUnitsOf a)
  rw [toUnitsOf_shift] at smallA smallB
  rw [order_kept]
  unfold compSize
  rcases normalizeSize_cases a b with ⟨ta, tb, eq, left, right, _, valueA, valueB, normal⟩ | ⟨eq, not⟩
  · have := normal.nearLeft
    have := normal.nearRight
    rw [eq, if_neg (by omega), if_neg (by omega), ← valueA, ← valueB, scaled, scaled, left, right,
      Nat.mul_comm, Nat.mul_comm tb.num.toNat]
    exact (order_mul (Nat.two_pow_pos _) _ _).symm
  · simp only [toUnitsOf_shift, order]
    have := fun near near' left right => not ⟨near, near', left, right⟩
    grind

/-- The other size lies between a size and what is kept of it. -/
def Between (a b : SizeValue) : Prop :=
  a.kept b < a.bytes ∧ a.kept b ≤ b.bytes ∧ b.bytes ≤ a.bytes

/-- A comparison is that of the bytes unless the shifts are far apart and the size with
the greater one is not greater, or words are lost and the other size lies between. -/
theorem compSize_exact_iff (a b : SizeValue) :
    compSize a b = order a.bytes b.bytes ↔
      (b.shift + 32 < a.shift → b.bytes < a.bytes) ∧
      (a.shift + 32 < b.shift → a.bytes < b.bytes) ∧
      (a.shift ≤ b.shift + 32 → b.shift ≤ a.shift + 32 → ¬ Between a b ∧ ¬ Between b a) := by
  have one := kept_eq_or a b
  have left := @kept_le a b
  have right := @kept_le b a
  rw [compSize_eq]
  unfold Between order
  grind

/-- `2000000000000000000` bytes are less than `1pb`. -/
theorem compSize_fails :
    ¬ compSize ⟨2000000000000000000, 0, .bytes⟩ ⟨1, 50, .bytes⟩ =
      order (bytes ⟨2000000000000000000, 0, .bytes⟩) (bytes ⟨1, 50, .bytes⟩) := by
  decide

/-! ## Arithmetic -/

/-- `enum batch_op`, as far as `set_size` knows it. -/
inductive SizeOp where
  | set
  | incr
  | decr
  | other

/-- The error codes of `set_size`. -/
inductive SizeError where
  | badAtVal
  | internal

/-- An attribute of type size, and whether its flags say that it is set and modified. -/
structure SizeAttr where
  size : SizeValue
  isSet : Bool
  modified : Bool

/-- The sum of two numbers, unless it is less than the first. -/
def sum (old num : BitVec 64) : Option (BitVec 64) :=
  if old + num < old then none else some (old + num)

/-- The difference of two numbers, unless it is greater than the first. -/
def difference (old num : BitVec 64) : Option (BitVec 64) :=
  if old - num > old then none else some (old - num)

variable (attr new : SizeAttr)

/-- The attribute with a number computed from the normalized sizes. -/
def SizeAttr.adjust (compute : BitVec 64 → BitVec 64 → Option (BitVec 64)) :
    Option SizeError × SizeAttr :=
  match normalizeSize attr.size new.size with
  | none => (some .badAtVal, attr)
  | some (tmpa, tmpn) =>
    match compute tmpa.num tmpn.num with
    | none => (some .badAtVal, attr)
    | some num => (none, ⟨{ tmpa with num := num }, true, true⟩)

/-- `set_size`: the error code, if there is one, and the attribute. -/
def setSize : SizeOp → Option SizeError × SizeAttr
  | .set => (none, ⟨new.size, true, true⟩)
  | .incr => attr.adjust new sum
  | .decr => attr.adjust new difference
  | .other => (some .internal, attr)

namespace SizeOp

/-- The number of bytes that an operation should give. -/
def target : SizeOp → Int → Int → Int
  | .set, _, b => b
  | .incr, a, b => a + b
  | .decr, a, b => a - b
  | .other, _, _ => 0

/-- The result of an increment or a decrement is a number below the limit. -/
def Fits : SizeOp → Nat → Nat → Nat → Prop
  | .incr, limit, a, b => a + b < limit
  | .decr, limit, a, b => b ≤ a ∧ a < limit
  | _, _, _, _ => False

/-- The shifts are near, and the result fits in the common unit with the smaller shift. -/
def Accepted (op : SizeOp) (a b : SizeValue) : Prop :=
  a.shift ≤ b.shift + 32 ∧ b.shift ≤ a.shift + 32 ∧
    op.Fits (min a.units.width b.units.width * 2 ^ (64 + min a.shift b.shift)) (a.kept b) (b.kept a)

variable {op : SizeOp} {limit k x y : Nat}

theorem fits_mul (positive : 0 < k) : op.Fits (k * limit) (k * x) (k * y) ↔ op.Fits limit x y := by
  cases op <;> simp only [Fits, ← Nat.mul_add, Nat.mul_lt_mul_left positive,
    Nat.mul_le_mul_left_iff positive]

theorem target_mul : op.target (k * x : Nat) (k * y : Nat) = k * op.target x y := by
  cases op <;> simp [target, Int.mul_add, Int.mul_sub]

theorem fits_lt (fits : op.Fits limit x y) : x < limit ∧ y < limit := by
  cases op <;> simp only [Fits] at fits <;> omega

theorem accepted_iff : op.Accepted a b ↔ Normal a b ∧
    op.Fits (2 ^ (64 + min a.shift b.shift)) (a.toUnitsOf b).scaled (b.toUnitsOf a).scaled := by
  unfold Accepted
  rw [kept_eq, kept_eq, Nat.min_comm b.units.width, fits_mul width_pos]
  constructor
  · intro ⟨near, near', fits⟩
    exact ⟨⟨near, near', (fits_lt fits).1, (fits_lt fits).2⟩, fits⟩
  · intro ⟨normal, fits⟩
    exact ⟨normal.nearLeft, normal.nearRight, fits⟩

/-- What an operation computes of two numbers is exact if it fits, and else an error. -/
def Computes (op : SizeOp) (compute : BitVec 64 → BitVec 64 → Option (BitVec 64)) : Prop :=
  ∀ x y, (∃ num, compute x y = some num ∧ (num.toNat : Int) = op.target x.toNat y.toNat ∧
      op.Fits (2 ^ 64) x.toNat y.toNat) ∨
    (compute x y = none ∧ ¬ op.Fits (2 ^ 64) x.toNat y.toNat)

end SizeOp

theorem computes_sum : SizeOp.incr.Computes sum := by
  intro x y
  have added := BitVec.toNat_add x y
  simp only [sum, SizeOp.Fits, SizeOp.target, BitVec.lt_def]
  split_ifs with wraps
  · exact .inr ⟨rfl, by omega⟩
  · exact .inl ⟨_, rfl, by omega, by omega⟩

theorem computes_difference : SizeOp.decr.Computes difference := by
  intro x y
  have subtracted := BitVec.toNat_sub x y
  simp only [difference, SizeOp.Fits, SizeOp.target, gt_iff_lt, BitVec.lt_def]
  split_ifs with wraps
  · exact .inr ⟨rfl, by omega⟩
  · exact .inl ⟨_, rfl, by omega, by omega⟩

/-- The attribute gets the exact result of what is kept of the sizes, if that fits. -/
theorem adjust_cases {op : SizeOp} {compute : BitVec 64 → BitVec 64 → Option (BitVec 64)}
    (computes : op.Computes compute) :
    (∃ after, attr.adjust new compute = (none, after) ∧
      after.size.bytes = op.target (attr.size.kept new.size) (new.size.kept attr.size) ∧
      op.Accepted attr.size new.size) ∨
    ((∃ code, attr.adjust new compute = (some code, attr)) ∧ ¬ op.Accepted attr.size new.size) := by
  unfold SizeAttr.adjust
  rw [SizeOp.accepted_iff]
  rcases normalizeSize_cases attr.size new.size with
    ⟨ta, tb, eq, left, right, units, valueA, valueB, normal⟩ | ⟨eq, not⟩
  · rw [kept_eq, kept_eq, Nat.min_comm new.size.units.width, SizeOp.target_mul, ← valueA, ← valueB,
      scaled, scaled, left, right, Nat.mul_comm, Nat.mul_comm tb.num.toNat, SizeOp.target_mul,
      Nat.add_comm, Nat.pow_add, SizeOp.fits_mul (Nat.two_pow_pos _), eq]
    rcases computes ta.num tb.num with ⟨num, computed, result, fits⟩ | ⟨computed, not⟩
    · refine .inl ⟨⟨{ ta with num := num }, true, true⟩, by simp only [computed], ?_, normal, fits⟩
      rw [← result, bytes, units, toUnitsOf_width, scaled, left, Nat.mul_comm num.toNat]
      rfl
    · exact .inr ⟨⟨.badAtVal, by simp only [computed]⟩, fun accepted => not accepted.2⟩
  · rw [eq]
    exact .inr ⟨⟨.badAtVal, rfl⟩, fun accepted => not accepted.1⟩

/-- An operation gives what it should, or an error and the attribute as it was. -/
def Exact (op : SizeOp) : Prop :=
  (∃ after, setSize attr new op = (none, after) ∧
    after.size.bytes = op.target attr.size.bytes new.size.bytes) ∨
  ∃ code, setSize attr new op = (some code, attr)

/-- An operation that loses no byte or is not accepted is exact. -/
theorem exact_iff_of_adjust {attr new : SizeAttr} {op : SizeOp} {compute} {lossless : Prop}
    (computes : op.Computes compute) (eq : setSize attr new op = attr.adjust new compute)
    (loses : op.target (attr.size.kept new.size) (new.size.kept attr.size) =
      op.target attr.size.bytes new.size.bytes ↔ lossless) :
    Exact attr new op ↔ lossless ∨ ¬ op.Accepted attr.size new.size := by
  unfold Exact
  rw [eq]
  rcases adjust_cases attr new computes with ⟨after, done, bytes, accepted⟩ | ⟨failed, refused⟩
  · simp [done, bytes, loses, accepted]
  · exact iff_of_true (.inr failed) (.inr refused)

/-- An increment or a decrement is exact unless it is accepted and words are lost. -/
theorem setSize_exact_iff (attr new : SizeAttr) (op : SizeOp) :
    Exact attr new op ↔
      (attr.size.kept new.size = attr.size.bytes ∧ new.size.kept attr.size = new.size.bytes) ∨
      ¬ op.Accepted attr.size new.size := by
  have one := kept_eq_or attr.size new.size
  cases op with
  | set => exact iff_of_true (.inl ⟨_, rfl, rfl⟩) (.inr fun accepted => accepted.2.2)
  | other => exact iff_of_true (.inr ⟨_, rfl⟩) (.inr fun accepted => accepted.2.2)
  | incr => exact exact_iff_of_adjust computes_sum rfl (by simp only [SizeOp.target]; omega)
  | decr => exact exact_iff_of_adjust computes_difference rfl (by simp only [SizeOp.target]; omega)

/-- Beside `0b` the words of `4611686018427387904w` are lost. -/
theorem setSize_inexact :
    ¬ Exact ⟨⟨4611686018427387904, 0, .words⟩, true, false⟩ ⟨⟨0, 0, .bytes⟩, true, false⟩ .incr := by
  rintro (⟨after, done, bytes⟩ | ⟨code, failed⟩)
  · cases done
    exact absurd bytes (by decide)
  · cases failed

end Torque.Attributes
