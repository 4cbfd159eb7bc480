import Torque.Dis.Format

/-!
# Reading DIS integers

`disrsi_` and `disrsl_` read DIS integers of type `unsigned` and `unsigned long`.  They
are written here as one reader over the format, and it is shown that this reader succeeds
exactly on the integers of the format and moves over their bytes, whatever follows them.
-/

namespace Torque.Dis

open Torque.Text List

variable {chan : TcpChan} {count : Nat} {fmt : IntFormat} {fuel : Nat}
  {refuse : Nat → Option DisCode} {byte : UInt8}

/-! ## Reading digits -/

/-- The digit loop of `disrsi_` and `disrsl_`, in arithmetic modulo `modulus`. -/
def digitLoop (modulus : Nat) : Nat → List UInt8 → Option Nat
  | value, [] => some value
  | value, byte :: bytes =>
    if IsDigit byte then digitLoop modulus ((10 * value + digitNat byte) % modulus) bytes
    else none

theorem disDigits_eq_digitLoop (value : Nat) (bytes : List UInt8) :
    disDigits value bytes = digitLoop (2 ^ 32) value bytes := by
  induction bytes generalizing value with
  | nil => rfl
  | cons byte bytes ih =>
    rw [disDigits, digitLoop, ih]
    rfl

theorem mod_numeralFrom (modulus value : Nat) (digits : List Nat) :
    numeralFrom 10 (value % modulus) digits % modulus = numeralFrom 10 value digits % modulus := by
  rw [numeralFrom_eq, numeralFrom_eq, Nat.add_mod, Nat.mod_mul_mod, ← Nat.add_mod]

/-- The loop goes through exactly if there are only digits. -/
theorem digitLoop_eq_some_iff {modulus value result : Nat} {bytes : List UInt8}
    (small : value < modulus) :
    digitLoop modulus value bytes = some result ↔
      (∀ byte ∈ bytes, IsDigit byte) ∧
        result = numeralFrom 10 value (bytes.map digitNat) % modulus := by
  induction bytes generalizing value with
  | nil => simp [digitLoop, Nat.mod_eq_of_lt small, eq_comm]
  | cons byte bytes ih =>
    rw [digitLoop]
    by_cases digit : IsDigit byte
    · rw [if_pos digit, ih (Nat.mod_lt _ (Nat.zero_lt_of_lt small)), mod_numeralFrom,
        forall_mem_cons, map_cons, numeralFrom_cons]
      simp [digit]
    · simp [digit]

/-! ## The reader -/

/-- The branch of a sign: the magnitude. -/
def readMagnitude (fmt : IntFormat) (chan : TcpChan) (negate : Bool) (count : Nat) : IntRead :=
  match tcpGets chan count with
  | .error _ => .fail .eod chan
  | .ok (scratch, chan) =>
    if count > fmt.greatest.length then
      ⟨.overflow, negate, 2 ^ fmt.bits - 1, chan⟩
    else if count = fmt.greatest.length ∧ memcmpPos scratch fmt.greatest = true then
      ⟨.overflow, negate, 2 ^ fmt.bits - 1, chan⟩
    else
      match digitLoop (2 ^ fmt.bits) 0 scratch with
      | none => .fail .nondigit chan
      | some value => ⟨.success, negate, value, chan⟩

/-- The branch of a digit: the other digits of a count, up to the recursive call. -/
def readCount (fmt : IntFormat) (chan : TcpChan) (c : Int) (count : Nat) :
    IntRead ⊕ (TcpChan × Nat) :=
  if count > 1 then
    match tcpGets chan (count - 1) with
    | .error _ => .inl (.fail .eod chan)
    | .ok (scratch, chan) =>
      if count > fmt.greatest.length then
        .inl ⟨.overflow, false, 2 ^ fmt.bits - 1, chan⟩
      else if count = fmt.greatest.length ∧
          memcmpPos (UInt8.ofNat c.toNat :: scratch) fmt.greatest = true then
        .inl ⟨.overflow, false, 2 ^ fmt.bits - 1, chan⟩
      else
        match digitLoop (2 ^ fmt.bits) (c - 48).toNat scratch with
        | none => .inl (.fail .nondigit chan)
        | some ndigs => .inr (chan, ndigs)
  else
    .inr (chan, (c - 48).toNat)

/-- The recursion of `disrsi_` and `disrsl_`, with a bound on its depth.  `refuse` says
which counts the function turns away before it reads anything. -/
def readFuel (fmt : IntFormat) (refuse : Nat → Option DisCode) : Nat → TcpChan → Nat → IntRead
  | 0, chan, _ => .fail .invalid chan
  | fuel + 1, chan, count =>
    match refuse count with
    | some code => .fail code chan
    | none =>
      let (c, chan) := tcpGetc chan
      -- the characters '-' and '+'
      if c = 45 ∨ c = 43 then
        readMagnitude fmt chan (c = 45) count
      else if c = 48 then
        .fail .leadzro chan
      else if 49 ≤ c ∧ c ≤ 57 then
        match readCount fmt chan c count with
        | .inl failed => failed
        | .inr (chan, ndigs) => readFuel fmt refuse fuel chan ndigs
      else if c = -1 then
        .fail .eod chan
      else if c = -2 then
        .fail .eof chan
      else
        .fail .nondigit chan

theorem readFuel_of_refused {code : DisCode} (refused : refuse count = some code) :
    readFuel fmt refuse (fuel + 1) chan count = .fail code chan := by
  simp only [readFuel, refused]

/-- `disrsi_` turns away counts for which its scratch array has no room. -/
def refuseInt (count : Nat) : Option DisCode :=
  if count = 0 ∨ count > disBufsiz - 1 then some .invalid else none

/-- `disrsl_` turns away counts that are greater than the number of digits of
`ULONG_MAX`.  The comparison that follows for a count equal to it looks at a scratch
array that holds zeros, and finds nothing. -/
def refuseLong (count : Nat) : Option DisCode :=
  if count > ulmax.length then some .overflow else none

/-- `disrsl_`: read one DIS integer whose first count has `count` digits, which are not
none: the function asserts it. -/
def disrsl_ (chan : TcpChan) (count : Nat) : IntRead :=
  readFuel unsignedLong refuseLong (chan.rest.length + 1) chan count

theorem disrsiFuel_eq_readFuel (fuel : Nat) (chan : TcpChan) (count : Nat) :
    disrsiFuel fuel chan count = readFuel unsignedInt refuseInt fuel chan count := by
  have magnitude : ∀ chan negate count,
      disrsiMagnitude chan negate count = readMagnitude unsignedInt chan negate count := by
    intro chan negate count
    simp only [disrsiMagnitude, disDigits_eq_digitLoop]
    rfl
  have counted : ∀ chan c count,
      disrsiCount chan c count = readCount unsignedInt chan c count := by
    intro chan c count
    simp only [disrsiCount, disDigits_eq_digitLoop]
    rfl
  induction fuel generalizing chan count with
  | zero => rfl
  | succ fuel ih =>
    simp only [disrsiFuel, magnitude, counted, ih]
    by_cases refused : count = 0 ∨ count > disBufsiz - 1
    · exact (if_pos refused).trans (readFuel_of_refused (if_pos refused)).symm
    · rewrite [if_neg refused, readFuel, refuseInt, if_neg refused]
      rfl

theorem disrsi_eq_readFuel (chan : TcpChan) (count : Nat) :
    disrsi_ chan count =
      readFuel unsignedInt refuseInt (chan.rest.length + 1) chan count :=
  disrsiFuel_eq_readFuel _ _ _

/-! ## Characters -/

theorem signedChar_eq (byte : UInt8) :
    signedChar byte = if byte.toNat < 128 then (byte.toNat : Int) else byte.toNat - 256 := by
  have cases := BitVec.toInt_eq_toNat_cond byte.toBitVec
  have value : signedChar byte = byte.toBitVec.toInt := rfl
  have toNat : byte.toBitVec.toNat = byte.toNat := rfl
  rw [value, cases, toNat]
  split <;> split <;> omega

theorem isDigit_of_signedChar (digit : 49 ≤ signedChar byte ∧ signedChar byte ≤ 57) :
    IsDigit byte ∧ byte ≠ 48 := by
  rw [signedChar_eq] at digit
  have bound := byte.toNat_lt
  have range : 49 ≤ byte.toNat ∧ byte.toNat ≤ 57 := by
    split at digit <;> omega
  refine ⟨isDigit_iff.mpr ⟨by omega, range.2⟩, ?_⟩
  rintro rfl
  exact absurd range.1 (by decide)

theorem signedChar_of_isDigit (digit : IsDigit byte) : signedChar byte = byte.toNat := by
  rw [signedChar_eq]
  have range := isDigit_iff.mp digit
  exact if_pos (by omega)

theorem signedChar_eq_sign_iff :
    signedChar byte = 45 ∨ signedChar byte = 43 ↔ byte = 43 ∨ byte = 45 := by
  have bound := byte.toNat_lt
  rw [signedChar_eq, ← UInt8.toNat_inj, ← UInt8.toNat_inj]
  change _ ↔ byte.toNat = 43 ∨ byte.toNat = 45
  split <;> omega

theorem signedChar_eq_minus_iff : signedChar byte = 45 ↔ byte = 45 := by
  have bound := byte.toNat_lt
  rw [signedChar_eq, ← UInt8.toNat_inj]
  change _ ↔ byte.toNat = 45
  split <;> omega

/-! ## What the branches read -/

section

variable {fmt : IntFormat} {chan next : TcpChan} {count value : Nat} {negate sign : Bool}

theorem digitLoop_fits {digits : List UInt8} {result : Nat} (fits : fmt.Fits digits)
    (value : result = digitsNat digits % 2 ^ fmt.bits) : result = digitsNat digits := by
  rw [value, Nat.mod_eq_of_lt fits.small]

/-- The magnitude is read if it is a number of the type with as many digits as were
announced. -/
theorem readMagnitude_eq_success_iff (positive : 0 < count) :
    readMagnitude fmt chan sign count = ⟨.success, negate, value, next⟩ ↔
      ∃ digits, digits.length = count ∧ fmt.Fits digits ∧ Advances chan digits next ∧
        negate = sign ∧ value = digitsNat digits := by
  have modulus : 0 < 2 ^ fmt.bits := Nat.two_pow_pos _
  unfold readMagnitude
  constructor
  · intro read
    split at read
    · cases read
    · rename_i scratch middle got
      obtain ⟨length, advances⟩ := tcpGets_eq_ok_iff_advances.mp got
      split at read
      · cases read
      · rename_i notLonger
        split at read
        · cases read
        · rename_i notGreater
          split at read
          · cases read
          · rename_i number digits
            cases read
            obtain ⟨all, numberEq⟩ := (digitLoop_eq_some_iff modulus).mp digits
            have nonempty : scratch ≠ [] := length_pos_iff.mp (length ▸ positive)
            rw [← length] at notLonger notGreater
            have fits := (IntFormat.fits_iff nonempty all).mpr ⟨notLonger, notGreater⟩
            exact ⟨scratch, length, fits, advances, rfl, digitLoop_fits fits numberEq⟩
  · rintro ⟨digits, rfl, fits, advances, rfl, rfl⟩
    obtain ⟨notLonger, notGreater⟩ := (IntFormat.fits_iff fits.nonempty fits.all).mp fits
    rw [tcpGets_eq_ok_iff_advances.mpr ⟨rfl, advances⟩]
    have loop := (digitLoop_eq_some_iff modulus).mpr ⟨fits.all, (Nat.mod_eq_of_lt fits.small).symm⟩
    simp only [if_neg notLonger, if_neg notGreater, loop]

theorem IntFormat.fits_singleton (digit : IsDigit byte) : fmt.Fits [byte] where
  nonempty := cons_ne_nil _ _
  all := by simpa using digit
  short := Nat.le_of_succ_le fmt.several
  small := by
    have below : digitsNat [byte] < 10 ^ 1 := digitsNat_lt (by simpa using digit)
    have several := fmt.several
    calc digitsNat [byte] < 10 ^ 1 := below
      _ ≤ 10 ^ (fmt.greatest.length - 1) := Nat.pow_le_pow_right (by decide) (by omega)
      _ ≤ 2 ^ fmt.bits := fmt.shorter

theorem digitsNat_cons (byte : UInt8) (digits : List UInt8) :
    digitsNat (byte :: digits) = numeralFrom 10 (digitNat byte) (digits.map digitNat) := by
  simp [digitsNat, numeral]

/-- A count is read if it is a number of the type with as many digits as were
announced. -/
theorem readCount_eq_inr_iff {first : UInt8} {ndigs : Nat} (digit : IsDigit first)
    (positive : 0 < count) :
    readCount fmt chan (signedChar first) count = .inr (next, ndigs) ↔
      ∃ digits, digits.length + 1 = count ∧ fmt.Fits (first :: digits) ∧
        Advances chan digits next ∧ ndigs = digitsNat (first :: digits) := by
  have char : UInt8.ofNat (signedChar first).toNat = first := by
    rw [signedChar_of_isDigit digit, Int.toNat_natCast, UInt8.ofNat_toNat]
  have start : (signedChar first - 48).toNat = digitNat first := by
    rw [signedChar_of_isDigit digit, digitNat]
    omega
  have small : digitNat first < 2 ^ fmt.bits := by
    have single : fmt.Fits [first] := IntFormat.fits_singleton digit
    have small := single.small
    rwa [digitsNat_cons] at small
  unfold readCount
  rw [start, char]
  by_cases several : count > 1
  · rw [if_pos several]
    constructor
    · intro read
      split at read
      · cases read
      · rename_i scratch middle got
        obtain ⟨length, advances⟩ := tcpGets_eq_ok_iff_advances.mp got
        have whole : (first :: scratch).length = count := by
          rw [length_cons, length]
          omega
        split at read
        · cases read
        · rename_i notLonger
          split at read
          · cases read
          · rename_i notGreater
            split at read
            · cases read
            · rename_i number digits
              cases read
              obtain ⟨all, numberEq⟩ := (digitLoop_eq_some_iff small).mp digits
              have all : ∀ byte ∈ first :: scratch, IsDigit byte :=
                forall_mem_cons.mpr ⟨digit, all⟩
              rw [← whole] at notLonger notGreater
              have fits :=
                (IntFormat.fits_iff (cons_ne_nil _ _) all).mpr ⟨notLonger, notGreater⟩
              rw [← digitsNat_cons] at numberEq
              exact ⟨scratch, whole, fits, advances, digitLoop_fits fits numberEq⟩
    · rintro ⟨digits, rfl, fits, advances, rfl⟩
      obtain ⟨notLonger, notGreater⟩ := (IntFormat.fits_iff fits.nonempty fits.all).mp fits
      rw [length_cons] at notLonger notGreater
      have got : tcpGets chan (digits.length + 1 - 1) = .ok (digits, next) :=
        tcpGets_eq_ok_iff_advances.mpr ⟨rfl, advances⟩
      have loop : digitLoop (2 ^ fmt.bits) (digitNat first) digits =
          some (digitsNat (first :: digits)) := by
        refine (digitLoop_eq_some_iff small).mpr ⟨?_, ?_⟩
        · exact (forall_mem_cons.mp fits.all).2
        · rw [← digitsNat_cons, Nat.mod_eq_of_lt fits.small]
      simp only [got, if_neg notLonger, if_neg notGreater, loop]
  · rw [if_neg several]
    constructor
    · rintro ⟨⟩
      refine ⟨[], ?_, IntFormat.fits_singleton digit, Advances.refl _, ?_⟩
      · rw [length_nil]
        omega
      · rw [digitsNat_cons]
        rfl
    · rintro ⟨digits, length, fits, advances, rfl⟩
      have none : digits = [] := length_eq_zero_iff.mp (by omega)
      subst none
      rw [digitsNat_cons, (advances.unique (Advances.refl chan) rfl).2]
      rfl

theorem advances_readMagnitude (fmt : IntFormat) (chan : TcpChan) (sign : Bool) (count : Nat) :
    ∃ bytes, Advances chan bytes (readMagnitude fmt chan sign count).chan := by
  unfold readMagnitude
  split
  · exact ⟨[], Advances.refl _⟩
  · rename_i scratch middle got
    refine ⟨scratch, ?_⟩
    have advances := (tcpGets_eq_ok_iff_advances.mp got).2
    split
    · exact advances
    · split
      · exact advances
      · split <;> exact advances

/-- A count is read without moving back, whether it is read or not. -/
theorem advances_readCount (fmt : IntFormat) (chan : TcpChan) (c : Int) (count : Nat) :
    ∃ bytes, Advances chan bytes
      (Sum.elim IntRead.chan Prod.fst (readCount fmt chan c count)) := by
  unfold readCount
  split
  · split
    · exact ⟨[], Advances.refl _⟩
    · rename_i scratch middle got
      refine ⟨scratch, ?_⟩
      have advances := (tcpGets_eq_ok_iff_advances.mp got).2
      split
      · exact advances
      · split
        · exact advances
        · split <;> exact advances
  · exact ⟨[], Advances.refl _⟩

/-- The branch that reads a count does not succeed by itself. -/
theorem readCount_inl_code_ne {c : Int} {failed : IntRead}
    (read : readCount fmt chan c count = .inl failed) : failed.code ≠ .success := by
  unfold readCount at read
  split at read
  · split at read
    · cases read
      exact nofun
    · split at read
      · cases read
        exact nofun
      · split at read
        · cases read
          exact nofun
        · split at read
          · cases read
            exact nofun
          · cases read
  · cases read

end

/-! ## What the recursion reads -/

section

variable {fmt : IntFormat} {refuse : Nat → Option DisCode} {fuel count : Nat} {chan : TcpChan}
  {byte : UInt8} {rest : List UInt8}

theorem readFuel_sign (accepted : refuse count = none) (starts : chan.rest = byte :: rest)
    (sign : byte = 43 ∨ byte = 45) :
    readFuel fmt refuse (fuel + 1) chan count =
      readMagnitude fmt (tcpGetc chan).2 (decide (byte = 45)) count := by
  have char := (tcpGetc_cons starts).1
  rw [readFuel, accepted]
  dsimp only
  rw [char, if_pos (signedChar_eq_sign_iff.mpr sign)]
  simp only [signedChar_eq_minus_iff]

theorem readFuel_digit (accepted : refuse count = none) (starts : chan.rest = byte :: rest)
    (digit : IsDigit byte) (nonzero : byte ≠ 48) :
    readFuel fmt refuse (fuel + 1) chan count =
      match readCount fmt (tcpGetc chan).2 (signedChar byte) count with
      | .inl failed => failed
      | .inr (chan, ndigs) => readFuel fmt refuse fuel chan ndigs := by
  have char := (tcpGetc_cons starts).1
  have value := signedChar_of_isDigit digit
  have range := isDigit_iff.mp digit
  have other : byte.toNat ≠ 48 := fun eq => nonzero (UInt8.toNat_inj.mp eq)
  have noSign : ¬ (signedChar byte = 45 ∨ signedChar byte = 43) := by omega
  have noZero : signedChar byte ≠ 48 := by omega
  have isCount : 49 ≤ signedChar byte ∧ signedChar byte ≤ 57 := by omega
  rw [readFuel, accepted]
  dsimp only
  rw [char, if_neg noSign, if_neg noZero, if_pos isCount]

/-- Any other beginning is refused, with the first byte read. -/
theorem readFuel_other (fmt : IntFormat) (accepted : refuse count = none)
    (noSign : ¬ ((tcpGetc chan).1 = 45 ∨ (tcpGetc chan).1 = 43))
    (noCount : ¬ (49 ≤ (tcpGetc chan).1 ∧ (tcpGetc chan).1 ≤ 57)) :
    ∃ code, code ≠ .success ∧
      ∀ fuel, readFuel fmt refuse (fuel + 1) chan count = .fail code (tcpGetc chan).2 := by
  simp only [readFuel, accepted, if_neg noSign, if_neg noCount]
  by_cases zero : (tcpGetc chan).1 = 48
  · exact ⟨.leadzro, nofun, fun _ => if_pos zero⟩
  · simp only [if_neg zero]
    by_cases eod : (tcpGetc chan).1 = -1
    · exact ⟨.eod, nofun, fun _ => if_pos eod⟩
    · simp only [if_neg eod]
      by_cases eof : (tcpGetc chan).1 = -2
      · exact ⟨.eof, nofun, fun _ => if_pos eof⟩
      · exact ⟨.nondigit, nofun, fun _ => if_neg eof⟩

theorem tcpGetc_dry_not_char (dry : chan.rest = []) :
    ¬ ((tcpGetc chan).1 = 45 ∨ (tcpGetc chan).1 = 43) ∧
      ¬ (49 ≤ (tcpGetc chan).1 ∧ (tcpGetc chan).1 ≤ 57) := by
  rw [tcpGetc_nil dry]
  dsimp only
  cases chan.ended with
  | failed => decide
  | closed => decide

section

variable (fmt : IntFormat) (refuse : Nat → Option DisCode) (fuel : Nat)

/-- The ways a call can go: refused before anything is read, a magnitude, a count, or a
beginning that is neither. -/
theorem readFuel_cases (count : Nat) (chan : TcpChan) :
    (∃ code, refuse count = some code ∧
        ∀ fuel, readFuel fmt refuse (fuel + 1) chan count = .fail code chan) ∨
      (∃ byte rest, chan.rest = byte :: rest ∧ (byte = 43 ∨ byte = 45) ∧
        ∀ fuel, readFuel fmt refuse (fuel + 1) chan count =
          readMagnitude fmt (tcpGetc chan).2 (decide (byte = 45)) count) ∨
      (∃ byte rest, chan.rest = byte :: rest ∧ IsDigit byte ∧ byte ≠ 48 ∧
        ∀ fuel, readFuel fmt refuse (fuel + 1) chan count =
          match readCount fmt (tcpGetc chan).2 (signedChar byte) count with
          | .inl failed => failed
          | .inr (chan, ndigs) => readFuel fmt refuse fuel chan ndigs) ∨
      ∃ code, code ≠ .success ∧
        ∀ fuel, readFuel fmt refuse (fuel + 1) chan count = .fail code (tcpGetc chan).2 := by
  cases refused : refuse count with
  | some code => exact Or.inl ⟨code, rfl, fun _ => readFuel_of_refused refused⟩
  | none =>
    right
    cases starts : chan.rest with
    | nil =>
      obtain ⟨noSign, noCount⟩ := tcpGetc_dry_not_char starts
      obtain ⟨code, failed, read⟩ := readFuel_other fmt refused noSign noCount
      exact Or.inr (Or.inr ⟨code, failed, read⟩)
    | cons byte rest =>
      have char := (tcpGetc_cons starts).1
      by_cases sign : byte = 43 ∨ byte = 45
      · exact Or.inl ⟨byte, rest, rfl, sign, fun _ => readFuel_sign refused starts sign⟩
      · right
        by_cases digit : 49 ≤ signedChar byte ∧ signedChar byte ≤ 57
        · obtain ⟨isDigit, nonzero⟩ := isDigit_of_signedChar digit
          exact Or.inl ⟨byte, rest, rfl, isDigit, nonzero,
            fun _ => readFuel_digit refused starts isDigit nonzero⟩
        · right
          have noSign := fun isSign => sign (signedChar_eq_sign_iff.mp isSign)
          rw [← char] at noSign digit
          obtain ⟨code, failed, read⟩ := readFuel_other fmt refused noSign digit
          exact ⟨code, failed, read⟩

/-- A call never moves back, however it ends, and it takes a byte if there is one. -/
theorem advances_readFuel (chan : TcpChan) (count : Nat) :
    ∃ bytes, Advances chan bytes (readFuel fmt refuse fuel chan count).chan ∧
      (0 < fuel → refuse count = none → bytes = [] → chan.rest = []) := by
  induction fuel generalizing chan count with
  | zero => exact ⟨[], Advances.refl _, fun absurdity => absurd absurdity (Nat.lt_irrefl 0)⟩
  | succ fuel ih =>
    rcases readFuel_cases fmt refuse count chan with
      ⟨code, refused, read⟩ | ⟨byte, rest, starts, _, read⟩ |
      ⟨byte, rest, starts, _, _, read⟩ | ⟨code, _, read⟩
    · rw [read, refused]
      exact ⟨[], Advances.refl _, nofun⟩
    · rw [read]
      obtain ⟨bytes, advances⟩ :=
        advances_readMagnitude fmt (tcpGetc chan).2 (decide (byte = 45)) count
      exact ⟨_, (tcpGetc_cons starts).2.trans advances, nofun⟩
    · have first := (tcpGetc_cons starts).2
      obtain ⟨bytes, advances⟩ :=
        advances_readCount fmt (tcpGetc chan).2 (signedChar byte) count
      rw [read]
      cases counted : readCount fmt (tcpGetc chan).2 (signedChar byte) count with
      | inl failed =>
        rw [counted] at advances
        exact ⟨_, first.trans advances, nofun⟩
      | inr next =>
        rw [counted] at advances
        obtain ⟨more, further, _⟩ := ih next.1 next.2
        exact ⟨_, first.trans (advances.trans further), nofun⟩
    · rw [read]
      cases starts : chan.rest with
      | nil =>
        rw [tcpGetc_nil starts]
        exact ⟨[], Advances.refl _, fun _ _ _ => rfl⟩
      | cons byte rest => exact ⟨_, (tcpGetc_cons starts).2, nofun⟩

end

/-- Reading is independent of the bound on the recursion once it exceeds the number of
unread bytes. -/
theorem readFuel_mono {more : Nat} (enough : chan.rest.length < fuel) (le : fuel ≤ more) :
    readFuel fmt refuse more chan count = readFuel fmt refuse fuel chan count := by
  induction fuel generalizing more chan count with
  | zero => exact absurd enough (Nat.not_lt_zero _)
  | succ fuel ih =>
    obtain ⟨more, rfl⟩ : ∃ k, more = k + 1 := ⟨more - 1, by omega⟩
    rcases readFuel_cases fmt refuse count chan with
      ⟨code, _, read⟩ | ⟨byte, rest, _, _, read⟩ | ⟨byte, rest, starts, _, _, read⟩ | ⟨code, _, read⟩
    · rw [read, read]
    · rw [read, read]
    · rw [read, read]
      obtain ⟨bytes, advances⟩ :=
        advances_readCount fmt (tcpGetc chan).2 (signedChar byte) count
      cases counted : readCount fmt (tcpGetc chan).2 (signedChar byte) count with
      | inl failed => rfl
      | inr next =>
        rw [counted] at advances
        have length : chan.rest.length = 1 + bytes.length + next.1.rest.length := by
          have rest : (tcpGetc chan).2.rest = bytes ++ next.1.rest := advances.rest
          rw [(tcpGetc_cons starts).2.rest, rest]
          simp only [length_append, length_singleton]
          omega
        exact ih (by omega) (by omega)
    · rw [read, read]

theorem length_lt_digitsNat {first : UInt8} {digits : List UInt8} (digit : IsDigit first)
    (nonzero : first ≠ 48) : digits.length < digitsNat (first :: digits) := by
  have range := isDigit_iff.mp digit
  have other : first.toNat ≠ 48 := fun eq => nonzero (UInt8.toNat_inj.mp eq)
  have positive : 0 < digitNat first := by
    unfold digitNat
    omega
  have least : 10 ^ (digits.map digitNat).length ≤ digitsNat (first :: digits) :=
    pow_le_numeral positive
  rw [length_map] at least
  exact (Nat.lt_pow_self (by decide)).trans_le least

/-- A call succeeds exactly on a DIS integer, and moves over its bytes. -/
theorem readFuel_eq_success_iff
    (accepts : ∀ count, 0 < count → count ≤ fmt.greatest.length → refuse count = none)
    (refuses : ∀ count, refuse count ≠ some .success)
    {negate : Bool} {value : Nat} {next : TcpChan} (positive : 0 < count)
    (enough : chan.rest.length < fuel) :
    readFuel fmt refuse fuel chan count = ⟨.success, negate, value, next⟩ ↔
      ∃ item, DisInteger fmt count item negate value ∧ Advances chan item next := by
  constructor
  · intro read
    clear enough
    induction fuel generalizing chan count with
    | zero => cases read
    | succ fuel ih =>
      rcases readFuel_cases fmt refuse count chan with
        ⟨code, refused, failed⟩ | ⟨byte, rest, starts, sign, magnitude⟩ |
        ⟨byte, rest, starts, digit, nonzero, counted⟩ | ⟨code, failure, failed⟩
      · rw [failed] at read
        cases read
        exact absurd refused (refuses count)
      · rw [magnitude, readMagnitude_eq_success_iff positive] at read
        obtain ⟨digits, rfl, fits, advances, rfl, rfl⟩ := read
        exact ⟨_, .magnitude byte digits sign fits, (tcpGetc_cons starts).2.trans advances⟩
      · rw [counted] at read
        cases counts : readCount fmt (tcpGetc chan).2 (signedChar byte) count with
        | inl failure =>
          rw [counts] at read
          have success : failure.code = .success := congrArg IntRead.code read
          exact absurd success (readCount_inl_code_ne counts)
        | inr answer =>
          obtain ⟨middle, ndigs⟩ := answer
          rw [counts] at read
          obtain ⟨digits, rfl, fits, advances, rfl⟩ :=
            (readCount_eq_inr_iff digit positive).mp counts
          obtain ⟨item, integer, further⟩ :=
            ih (Nat.zero_lt_of_lt (length_lt_digitsNat digit nonzero)) read
          exact ⟨_, .counted byte digits item negate value nonzero fits integer,
            ((tcpGetc_cons starts).2.trans advances).trans further⟩
      · rw [failed] at read
        cases read
        exact absurd rfl failure
  · rintro ⟨item, integer, advances⟩
    induction integer generalizing chan fuel with
    | magnitude sign digits signed fits =>
      obtain ⟨fuel, rfl⟩ : ∃ more, fuel = more + 1 := ⟨fuel - 1, by omega⟩
      have starts : chan.rest = sign :: (digits ++ next.rest) := advances.rest
      have accepted := accepts _ positive fits.short
      rw [readFuel_sign accepted starts signed, readMagnitude_eq_success_iff positive]
      have first : Advances chan [sign] (tcpGetc chan).2 := (tcpGetc_cons starts).2
      have whole : Advances chan ([sign] ++ digits) next := advances
      exact ⟨digits, rfl, fits, whole.behind first, rfl, rfl⟩
    | counted first digits item negate value nonzero fits integer ih =>
      obtain ⟨fuel, rfl⟩ : ∃ more, fuel = more + 1 := ⟨fuel - 1, by omega⟩
      have whole : Advances chan ([first] ++ (digits ++ item)) next := by
        simpa using advances
      have starts : chan.rest = first :: (digits ++ item ++ next.rest) := by
        simpa using whole.rest
      have digit := fits.all first mem_cons_self
      have accepted := accepts _ positive fits.short
      have afterFirst : Advances chan [first] (tcpGetc chan).2 := (tcpGetc_cons starts).2
      obtain ⟨middle, overDigits, overItem⟩ := (whole.behind afterFirst).exists_between
      rw [readFuel_digit accepted starts digit nonzero,
        (readCount_eq_inr_iff digit positive).mpr ⟨digits, rfl, fits, overDigits, rfl⟩]
      refine ih (Nat.zero_lt_of_lt (length_lt_digitsNat digit nonzero)) ?_ overItem
      have shorter : chan.rest.length = 1 + digits.length + middle.rest.length := by
        rw [afterFirst.rest, overDigits.rest]
        simp only [length_append, length_singleton]
        omega
      omega

end

variable {count : Nat}

/-! ## The two readers -/

theorem refuseInt_of_le (positive : 0 < count) (le : count ≤ unsignedInt.greatest.length) :
    refuseInt count = none := by
  have few : unsignedInt.greatest.length = 10 := rfl
  refine if_neg ?_
  unfold disBufsiz
  omega

theorem refuseInt_ne_success (count : Nat) : refuseInt count ≠ some .success := by
  unfold refuseInt
  split <;> exact nofun

theorem refuseLong_of_le (le : count ≤ unsignedLong.greatest.length) : refuseLong count = none :=
  if_neg (Nat.not_lt.mpr le)

theorem refuseLong_ne_success (count : Nat) : refuseLong count ≠ some .success := by
  unfold refuseLong
  split <;> exact nofun

variable {chan next : TcpChan} {negate : Bool} {value : Nat}

/-- The bound on the recursion of `disrsi_` is sufficient. -/
theorem disrsiFuel_mono {more : Nat} (count : Nat) (enough : chan.rest.length < fuel)
    (le : fuel ≤ more) : disrsiFuel more chan count = disrsiFuel fuel chan count := by
  rw [disrsiFuel_eq_readFuel, disrsiFuel_eq_readFuel, readFuel_mono enough le]

theorem disrsi_eq_success_iff :
    disrsi_ chan 1 = ⟨.success, negate, value, next⟩ ↔
      ∃ item, DisInteger unsignedInt 1 item negate value ∧ Advances chan item next := by
  rw [disrsi_eq_readFuel]
  exact readFuel_eq_success_iff (fun _ => refuseInt_of_le) refuseInt_ne_success Nat.one_pos
    (Nat.lt_succ_self _)

theorem disrsl_eq_success_iff :
    disrsl_ chan 1 = ⟨.success, negate, value, next⟩ ↔
      ∃ item, DisInteger unsignedLong 1 item negate value ∧ Advances chan item next :=
  readFuel_eq_success_iff (fun _ _ => refuseLong_of_le) refuseLong_ne_success Nat.one_pos
    (Nat.lt_succ_self _)

/-- However `disrsi_` ends, it has moved on, unless there was nothing to read. -/
theorem advances_disrsi (chan : TcpChan) :
    ∃ bytes, Advances chan bytes (disrsi_ chan 1).chan ∧ (bytes = [] → chan.rest = []) := by
  obtain ⟨bytes, advances, taken⟩ :=
    advances_readFuel unsignedInt refuseInt (chan.rest.length + 1) chan 1
  rw [disrsi_eq_readFuel]
  exact ⟨bytes, advances, taken (Nat.succ_pos _) rfl⟩

theorem advances_disrsl (chan : TcpChan) : ∃ bytes, Advances chan bytes (disrsl_ chan 1).chan := by
  obtain ⟨bytes, advances, _⟩ :=
    advances_readFuel unsignedLong refuseLong (chan.rest.length + 1) chan 1
  exact ⟨bytes, advances⟩

/-- What `disrsi_` has read of a stream, if it succeeded. -/
theorem disrsi_success (success : (disrsi_ chan 1).code = .success) :
    ∃ item, DisInteger unsignedInt 1 item (disrsi_ chan 1).negate (disrsi_ chan 1).value ∧
      Advances chan item (disrsi_ chan 1).chan := by
  rw [← disrsi_eq_success_iff, ← success]

theorem disrsl_success (success : (disrsl_ chan 1).code = .success) :
    ∃ item, DisInteger unsignedLong 1 item (disrsl_ chan 1).negate (disrsl_ chan 1).value ∧
      Advances chan item (disrsl_ chan 1).chan := by
  rw [← disrsl_eq_success_iff, ← success]

theorem disrui_value_lt (read : disrui chan = (.ok value, next)) : value < 2 ^ 32 := by
  unfold disrui at read
  simp only at read
  split at read
  · cases read
  · rename_i success
    split at read
    · cases read
    · cases read
      obtain ⟨item, integer, _⟩ := disrsi_success (not_not.mp success)
      exact integer.value_lt

end Torque.Dis
