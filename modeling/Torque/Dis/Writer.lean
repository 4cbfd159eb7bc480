import Torque.Dis.Readers

/-!
# Writing DIS integers

The writers of integers print the magnitude into a scratch array from the back, put the
sign in front of it, and as long as what they printed last has several digits, the number
of these digits.  What they hand to `tcp_puts` is the string that starts there.

Each reader gets back what its writer wrote, and stops exactly where the writer did.
-/

namespace Torque.Dis

open Torque.Text List

variable {digit value : Nat}

/-! ## Printing -/

/-- `discui_` and `discul_`: the digits of a number, printed in front of `cp`. -/
def printDigits (value : Nat) (cp : List UInt8) : List UInt8 :=
  if value > 9 then
    printDigits (value / 10) (UInt8.ofNat (value % 10 + 48) :: cp)
  else
    UInt8.ofNat (value + 48) :: cp
termination_by value
decreasing_by omega

section

variable (cp : List UInt8) (value : Nat)

/-- `discui_`: the string with the digits in front, and their number. -/
def discui_ : List UInt8 × Nat :=
  let printed := printDigits value cp
  (printed, printed.length - cp.length)

/-- `discul_`, which is `discui_` for another type. -/
def discul_ : List UInt8 × Nat :=
  discui_ cp value

/-- The digits of a number by themselves. -/
def digitsOf (value : Nat) : List UInt8 :=
  printDigits value []

theorem printDigits_eq_append (value : Nat) (cp : List UInt8) :
    printDigits value cp = digitsOf value ++ cp := by
  unfold digitsOf
  induction value using Nat.strongRecOn generalizing cp with
  | ind value ih =>
    rw [printDigits.eq_def value cp, printDigits.eq_def value []]
    by_cases several : value > 9
    · rw [if_pos several, if_pos several, ih _ (by omega), ih _ (by omega) [_]]
      simp
    · rw [if_neg several, if_neg several]
      rfl

theorem digitsOf_eq (value : Nat) :
    digitsOf value =
      if value > 9 then digitsOf (value / 10) ++ [UInt8.ofNat (value % 10 + 48)]
      else [UInt8.ofNat (value + 48)] := by
  rw [digitsOf, printDigits]
  by_cases several : value > 9
  · rw [if_pos several, if_pos several, printDigits_eq_append]
  · rw [if_neg several, if_neg several]

theorem discui_eq : discui_ cp value = (digitsOf value ++ cp, (digitsOf value).length) := by
  simp only [discui_, printDigits_eq_append, length_append, Nat.add_sub_cancel]

end

theorem toNat_digit (small : digit < 10) : (UInt8.ofNat (digit + 48)).toNat = digit + 48 := by
  rw [UInt8.toNat_ofNat']
  omega

theorem isDigit_digit (small : digit < 10) : IsDigit (UInt8.ofNat (digit + 48)) := by
  rw [isDigit_iff, toNat_digit small]
  omega

theorem isDigit_of_mem_digitsOf : ∀ byte ∈ digitsOf value, IsDigit byte := by
  induction value using Nat.strongRecOn with
  | ind value ih =>
    rw [digitsOf_eq]
    split
    · exact forall_mem_append.mpr ⟨ih _ (by omega),
        forall_mem_singleton.mpr (isDigit_digit (Nat.mod_lt _ (by decide)))⟩
    · exact forall_mem_singleton.mpr (isDigit_digit (by omega))

theorem digitsNat_append (digits : List UInt8) (byte : UInt8) :
    digitsNat (digits ++ [byte]) = 10 * digitsNat digits + digitNat byte := by
  rw [digitsNat, map_append, numeral, numeralFrom_append]
  rfl

theorem digitsNat_digitsOf (value : Nat) : digitsNat (digitsOf value) = value := by
  induction value using Nat.strongRecOn with
  | ind value ih =>
    rw [digitsOf_eq]
    by_cases several : value > 9
    · rw [if_pos several, digitsNat_append, ih _ (by omega), digitNat,
        toNat_digit (Nat.mod_lt _ (by decide))]
      omega
    · rw [if_neg several]
      have small : value < 10 := by omega
      change numeral 10 [digitNat _] = value
      rw [digitNat, toNat_digit small, numeral_cons]
      simp [numeral]

/-- A number has no more digits than a power of ten above it. -/
theorem length_digitsOf_le {k : Nat} (positive : 0 < k) (below : value < 10 ^ k) :
    (digitsOf value).length ≤ k := by
  induction k generalizing value with
  | zero => exact absurd positive (Nat.lt_irrefl 0)
  | succ k ih =>
    rw [digitsOf_eq]
    by_cases several : value > 9
    · rw [if_pos several, length_append, length_singleton]
      have quotient : value / 10 < 10 ^ k := by
        rw [Nat.div_lt_iff_lt_mul (by decide), ← Nat.pow_succ]
        exact below
      have more : 0 < k := by
        rcases Nat.eq_zero_or_pos k with rfl | more
        · omega
        · exact more
      exact Nat.succ_le_succ (ih more quotient)
    · rw [if_neg several]
      exact Nat.succ_le_succ (Nat.zero_le _)

/-- Only zero is printed with a leading zero. -/
theorem digitsOf_eq_cons (positive : 0 < value) :
    ∃ first digits, digitsOf value = first :: digits ∧ first ≠ 48 := by
  induction value using Nat.strongRecOn with
  | ind value ih =>
    rw [digitsOf_eq]
    by_cases several : value > 9
    · obtain ⟨first, digits, printed, nonzero⟩ := ih (value / 10) (by omega) (by omega)
      rw [if_pos several, printed]
      exact ⟨first, _, rfl, nonzero⟩
    · rw [if_neg several]
      refine ⟨_, [], rfl, ?_⟩
      intro zero
      have code := toNat_digit (Nat.lt_succ_of_le (Nat.le_of_not_lt several))
      rw [zero] at code
      have same : 48 = value + 48 := code
      omega

theorem length_digitsOf_lt (several : 1 < value) : (digitsOf value).length < value := by
  have short : (digitsOf value).length ≤ 1 ∨ (digitsOf value).length < value := by
    clear several
    induction value using Nat.strongRecOn with
    | ind value ih =>
      rw [digitsOf_eq]
      split
      · have shorter := ih (value / 10) (by omega)
        rw [length_append, length_singleton]
        omega
      · exact .inl le_rfl
  omega

/-- The loop of the writers: while there are several digits, their number is printed in
front. -/
def printCounts (ndigs : Nat) (cp : List UInt8) : List UInt8 :=
  if ndigs > 1 then printCounts (discui_ cp ndigs).2 (discui_ cp ndigs).1 else cp
termination_by ndigs
decreasing_by
  rw [discui_eq]
  exact length_digitsOf_lt (by assumption)

/-- The string that the writers of integers print. -/
def printInteger (sign : UInt8) (value : Nat) : List UInt8 :=
  let (cp, ndigs) := discui_ [] value
  printCounts ndigs (sign :: cp)

/-! ## The writers -/

/-- `diswsi`: what it hands to `tcp_puts`. -/
def diswsi (value : Int32) : List UInt8 :=
  if value < 0 then printInteger 45 ((-(value + 1)).toUInt32 + 1).toNat
  else printInteger 43 value.toUInt32.toNat

/-- `diswsl`: what it hands to `tcp_puts`. -/
def diswsl (value : Int64) : List UInt8 :=
  if value < 0 then printInteger 45 ((-(value + 1)).toUInt64 + 1).toNat
  else printInteger 43 value.toUInt64.toNat

/-- `diswui`: what it hands to `tcp_puts`. -/
def diswui (value : UInt32) : List UInt8 :=
  printInteger 43 value.toNat

/-- `diswul`: what it hands to `tcp_puts`. -/
def diswul (value : UInt64) : List UInt8 :=
  printInteger 43 value.toNat

/-! ## Printed integers -/

section

variable {fmt : IntFormat} {sign : UInt8} {value : Nat}

/-- Every number of the type is printed with digits that the readers accept. -/
theorem fits_digitsOf (small : value < 2 ^ fmt.bits) : fmt.Fits (digitsOf value) where
  nonempty := by
    rcases Nat.eq_zero_or_pos value with rfl | positive
    · rw [digitsOf_eq]
      exact cons_ne_nil _ _
    · obtain ⟨first, digits, printed, _⟩ := digitsOf_eq_cons positive
      rw [printed]
      exact cons_ne_nil _ _
  all := isDigit_of_mem_digitsOf
  short := by
    have several := fmt.several
    refine length_digitsOf_le (by omega) ?_
    have greatest := digitsNat_lt fmt.digits
    have bound := fmt.value
    omega
  small := by rwa [digitsNat_digitsOf]

theorem integer_printCounts {count : Nat} {item : List UInt8} {negate : Bool}
    (integer : DisInteger fmt count item negate value) :
    DisInteger fmt 1 (printCounts count item) negate value := by
  induction count using Nat.strongRecOn generalizing item with
  | ind count ih =>
    rw [printCounts]
    by_cases several : count > 1
    · rw [if_pos several, discui_eq]
      have few := integer.count_le.trans_lt fmt.length_greatest_lt
      obtain ⟨first, digits, printed, nonzero⟩ := digitsOf_eq_cons (Nat.zero_lt_of_lt several)
      have fits : fmt.Fits (first :: digits) := printed ▸ fits_digitsOf few
      have number : digitsNat (first :: digits) = count := by
        rw [← printed, digitsNat_digitsOf]
      have counted := DisInteger.counted first digits item negate value nonzero fits
        (number ▸ integer)
      rw [← length_cons, ← printed] at counted
      exact ih _ (length_digitsOf_lt several) counted
    · rw [if_neg several]
      have one : count = 1 := by
        have positive := integer.count_pos
        omega
      rwa [one] at integer

theorem integer_printInteger (signed : sign = 43 ∨ sign = 45) (small : value < 2 ^ fmt.bits) :
    DisInteger fmt 1 (printInteger sign value) (decide (sign = 45)) value := by
  unfold printInteger
  rw [discui_eq]
  have fits : fmt.Fits (digitsOf value) := fits_digitsOf small
  have magnitude := DisInteger.magnitude sign (digitsOf value) signed fits
  rw [digitsNat_digitsOf] at magnitude
  rw [append_nil]
  exact integer_printCounts magnitude

end

variable {w : Nat} {bits : BitVec w}

/-! ## Reading back -/

/-- The negation of a negative number as an unsigned one, computed without overflow. -/
theorem toNat_negated (negative : bits.toInt < 0) :
    (-(bits + 1#w) + 1#w).toNat = bits.toInt.natAbs := by
  rw [BitVec.neg_add, BitVec.sub_add_cancel, BitVec.toNat_neg]
  rw [BitVec.toInt_eq_toNat_cond] at negative ⊢
  split at negative
  · omega
  · rename_i big
    rw [if_neg big, Nat.mod_eq_of_lt (by omega)]
    omega

theorem toNat_of_toInt_nonneg (nonneg : ¬ bits.toInt < 0) : bits.toNat = bits.toInt.natAbs := by
  rw [BitVec.toInt_eq_toNat_cond] at nonneg ⊢
  split at nonneg
  · omega
  · omega

/-- The writers print the magnitude, also that of the least number. -/
theorem printInteger_signed {less : Prop} [Decidable less] (iff : less ↔ bits.toInt < 0) :
    (if less then printInteger 45 (-(bits + 1#w) + 1#w).toNat else printInteger 43 bits.toNat) =
      printInteger (if bits.toInt < 0 then 45 else 43) bits.toInt.natAbs := by
  by_cases negative : bits.toInt < 0
  · rw [if_pos (iff.mpr negative), if_pos negative, toNat_negated negative]
  · rw [if_neg (mt iff.mp negative), if_neg negative, toNat_of_toInt_nonneg negative]

theorem diswsi_eq (value : Int32) :
    diswsi value = printInteger (if value.toInt < 0 then 45 else 43) value.toInt.natAbs :=
  printInteger_signed Int32.lt_iff_toInt_lt

theorem diswsl_eq (value : Int64) :
    diswsl value = printInteger (if value.toInt < 0 then 45 else 43) value.toInt.natAbs :=
  printInteger_signed Int64.lt_iff_toInt_lt

section

variable (pending continuation : List UInt8) (ended : StreamEnd) {sign : UInt8} {value : Nat}

theorem disrsi_printInteger (signed : sign = 43 ∨ sign = 45) (small : value < 2 ^ 32) :
    ∃ item, disrsi_ ⟨pending, printInteger sign value ++ continuation, ended⟩ 1 =
      ⟨.success, decide (sign = 45), value, ⟨item, continuation, ended⟩⟩ :=
  ⟨_, disrsi_eq_success_iff.mpr ⟨_, integer_printInteger signed small, rfl, rfl, rfl⟩⟩

theorem disrsl_printInteger (signed : sign = 43 ∨ sign = 45) (small : value < 2 ^ 64) :
    ∃ item, disrsl_ ⟨pending, printInteger sign value ++ continuation, ended⟩ 1 =
      ⟨.success, decide (sign = 45), value, ⟨item, continuation, ended⟩⟩ :=
  ⟨_, disrsl_eq_success_iff.mpr ⟨_, integer_printInteger signed small, rfl, rfl, rfl⟩⟩

variable (n : Int)

theorem minus_iff : (if n < 0 then (45 : UInt8) else 43) = 45 ↔ n < 0 := by
  split <;> simp_all

/-- The sign in front of a magnitude gives the number back. -/
theorem signed_natAbs :
    (if decide ((if n < 0 then (45 : UInt8) else 43) = 45) = true then -(n.natAbs : Int)
      else n.natAbs) = n := by
  simp only [minus_iff, decide_eq_true_eq]
  omega

/-- The magnitude of a number of a signed type is accepted behind its sign. -/
theorem inSignedRange_natAbs {bits : Nat} {n : Int} (lower : -2 ^ bits ≤ n) (upper : n < 2 ^ bits) :
    inSignedRange bits (decide ((if n < 0 then (45 : UInt8) else 43) = 45)) n.natAbs = true := by
  have power : ((2 ^ bits : Nat) : Int) = 2 ^ bits := by push_cast; rfl
  simp only [inSignedRange, minus_iff, decide_eq_true_eq]
  split <;> simp only [decide_eq_true_eq] <;> omega

theorem sign_cases :
    (if n < 0 then (45 : UInt8) else 43) = 43 ∨ (if n < 0 then (45 : UInt8) else 43) = 45 := by
  split
  · exact Or.inr rfl
  · exact Or.inl rfl

theorem disrsi_diswsi (value : Int32) :
    disrsi ⟨pending, diswsi value ++ continuation, ended⟩ =
      (.ok value, ⟨[], continuation, ended⟩) := by
  have lower := value.le_toInt
  have upper := value.toInt_lt
  obtain ⟨item, read⟩ := disrsi_printInteger pending continuation ended
    (sign_cases value.toInt) (show value.toInt.natAbs < 2 ^ 32 by omega)
  have inRange := inSignedRange_natAbs lower upper
  simp only [disrsi, diswsi_eq, read, inIntRange, ne_eq, not_true_eq_false, if_false, inRange,
    if_true, signed_natAbs, Int32.ofInt_toInt, tcpRcommit]

theorem disrsl_diswsl (value : Int64) :
    disrsl ⟨pending, diswsl value ++ continuation, ended⟩ =
      (.ok value, ⟨[], continuation, ended⟩) := by
  have lower := value.le_toInt
  have upper := value.toInt_lt
  obtain ⟨item, read⟩ := disrsl_printInteger pending continuation ended
    (sign_cases value.toInt) (show value.toInt.natAbs < 2 ^ 64 by omega)
  have inRange := inSignedRange_natAbs lower upper
  simp only [disrsl, readSigned, diswsl_eq, read, inLongRange, ne_eq, not_true_eq_false, if_false,
    inRange, if_true, signed_natAbs, Int64.ofInt_toInt, tcpRcommit]

theorem disrui_diswui (value : UInt32) :
    disrui ⟨pending, diswui value ++ continuation, ended⟩ =
      (.ok value.toNat, ⟨[], continuation, ended⟩) := by
  obtain ⟨item, read⟩ :=
    disrsi_printInteger pending continuation ended (Or.inl rfl) value.toNat_lt
  have plus : decide ((43 : UInt8) = 45) = false := by decide
  simp only [disrui, diswui, read, plus, ne_eq, not_true_eq_false, if_false, Bool.false_eq_true,
    tcpRcommit, if_true]

theorem disrul_diswul (value : UInt64) :
    disrul ⟨pending, diswul value ++ continuation, ended⟩ =
      (.ok value.toNat, ⟨[], continuation, ended⟩) := by
  obtain ⟨item, read⟩ :=
    disrsl_printInteger pending continuation ended (Or.inl rfl) value.toNat_lt
  have plus : decide ((43 : UInt8) = 45) = false := by decide
  simp only [disrul, diswul, read, plus, ne_eq, not_true_eq_false, if_false, Bool.false_eq_true,
    tcpRcommit, if_true]

end

/-- Items that are read back whatever follows them are not prefixes of each other. -/
theorem prefix_iff_eq {α β : Type} {reader : Reader β} {write : α → List UInt8}
    {shown : α → β} (injective : Function.Injective shown)
    (readBack : ∀ continuation value,
      reader ⟨[], write value ++ continuation, .closed⟩ =
        (.ok (shown value), ⟨[], continuation, .closed⟩)) (left right : α) :
    write left <+: write right ↔ left = right := by
  constructor
  · rintro ⟨more, whole⟩
    have first := readBack more left
    have second := readBack [] right
    rw [append_nil, ← whole, first] at second
    exact injective (Except.ok.inj (congrArg Prod.fst second))
  · rintro rfl
    exact List.prefix_rfl

/-- Every integer is read back by its reader, whatever follows it, with the position at
what follows, and none is written as the beginning of another. -/
theorem integers_read_back :
    (∀ (pending continuation : List UInt8) (ended : StreamEnd),
      (∀ value : Int32, disrsi ⟨pending, diswsi value ++ continuation, ended⟩ =
        (.ok value, ⟨[], continuation, ended⟩)) ∧
      (∀ value : Int64, disrsl ⟨pending, diswsl value ++ continuation, ended⟩ =
        (.ok value, ⟨[], continuation, ended⟩)) ∧
      (∀ value : UInt32, disrui ⟨pending, diswui value ++ continuation, ended⟩ =
        (.ok value.toNat, ⟨[], continuation, ended⟩)) ∧
      (∀ value : UInt64, disrul ⟨pending, diswul value ++ continuation, ended⟩ =
        (.ok value.toNat, ⟨[], continuation, ended⟩))) ∧
    (∀ left right : Int32, diswsi left <+: diswsi right ↔ left = right) ∧
    (∀ left right : Int64, diswsl left <+: diswsl right ↔ left = right) ∧
    (∀ left right : UInt32, diswui left <+: diswui right ↔ left = right) ∧
    (∀ left right : UInt64, diswul left <+: diswul right ↔ left = right) := by
  constructor
  · intro pending continuation ended
    exact ⟨disrsi_diswsi pending continuation ended, disrsl_diswsl pending continuation ended,
      disrui_diswui pending continuation ended, disrul_diswul pending continuation ended⟩
  · constructor
    · exact prefix_iff_eq Function.injective_id fun more => disrsi_diswsi [] more .closed
    constructor
    · exact prefix_iff_eq Function.injective_id fun more => disrsl_diswsl [] more .closed
    constructor
    · exact prefix_iff_eq (fun _ _ => UInt32.toNat_inj.mp) fun more =>
        disrui_diswui [] more .closed
    · exact prefix_iff_eq (fun _ _ => UInt64.toNat_inj.mp) fun more =>
        disrul_diswul [] more .closed

/-! ## Magnitudes -/

/-- `disrsi_` and `disrsl_` end, succeed exactly on the integers of their format with the
value of the digits, and the format has every magnitude up to the greatest. -/
theorem magnitudes_exact (chan : TcpChan) :
    (∀ fuel, chan.rest.length < fuel → disrsiFuel fuel chan 1 = disrsi_ chan 1) ∧
    (∀ fuel, chan.rest.length < fuel →
      readFuel unsignedLong refuseLong fuel chan 1 = disrsl_ chan 1) ∧
    (∀ negate value next,
      (disrsi_ chan 1 = ⟨.success, negate, value, next⟩ ↔
        ∃ item, DisInteger unsignedInt 1 item negate value ∧ Advances chan item next) ∧
      (disrsl_ chan 1 = ⟨.success, negate, value, next⟩ ↔
        ∃ item, DisInteger unsignedLong 1 item negate value ∧ Advances chan item next)) ∧
    ∀ fmt negate value, (∃ item, DisInteger fmt 1 item negate value) ↔ value < 2 ^ fmt.bits := by
  refine ⟨fun fuel enough => disrsiFuel_mono 1 (Nat.lt_succ_self _) enough,
    fun fuel enough => readFuel_mono (Nat.lt_succ_self _) enough,
    fun negate value next => ⟨disrsi_eq_success_iff, disrsl_eq_success_iff⟩, ?_⟩
  intro fmt negate value
  constructor
  · rintro ⟨item, integer⟩
    exact integer.value_lt
  · intro small
    cases negate with
    | false => exact ⟨_, integer_printInteger (.inl rfl) small⟩
    | true => exact ⟨_, integer_printInteger (.inr rfl) small⟩

/-- Five with ten zeros in front is an integer, and `disrsi_` refuses it. -/
theorem disrsi_refuses_padded :
    let digits : List UInt8 := [48, 48, 48, 48, 48, 48, 48, 48, 48, 48, 53]
    let item : List UInt8 := [50, 49, 49, 43] ++ digits
    DisInteger unsignedLong 1 item false 5 ∧
      (disrsi_ ⟨[], item, .failed⟩ 1).code = .overflow := by
  intro digits item
  have magnitude : DisInteger unsignedLong 11 (43 :: digits) false 5 :=
    .magnitude 43 digits (by decide) ⟨by decide, by simp [IsDigit, digits], by decide, by decide⟩
  have counted : DisInteger unsignedLong 2 ([49, 49] ++ 43 :: digits) false 5 :=
    .counted 49 [49] _ _ _ (by decide) ⟨by decide, by simp [IsDigit], by decide, by decide⟩ magnitude
  exact ⟨.counted 50 [] _ _ _ (by decide) ⟨by decide, by simp [IsDigit], by decide, by decide⟩ counted,
    by decide⟩

end Torque.Dis
