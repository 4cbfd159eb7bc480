import Torque.Dis.Channel

/-!
# Data-is-Strings readers

`disrsi_` decodes one DIS integer: a chain of digit counts, each giving the
length of the next, ended by a sign and as many digits as the last count says.
`disrui` and `disrfcs` are the readers built on it for unsigned integers and
for counted strings with a caller-supplied limit.

The C function calls itself once per count.  Every call takes at least one
byte, so the number of unread bytes bounds the depth of the recursion; the
model recurses on that bound.  Any larger bound gives the same reading.
-/

namespace Torque.Dis

variable {achars : Nat} {chan next : TcpChan} {value : List UInt8}

/-! ## Integers -/

/-- `DIS_BUFSIZ`: `CHAR_BIT * sizeof(ULONG_MAX)` on an LP64 platform. -/
def disBufsiz : Nat := 64

/-- `UINT_MAX` for 32-bit unsigned integers. -/
def uintMax : Nat := 2 ^ 32 - 1

/-- `dis_umax`: the decimal digits of `UINT_MAX`, as character codes. -/
def disUmax : List UInt8 :=
  [52, 50, 57, 52, 57, 54, 55, 50, 57, 53]

/-- `dis_umaxd`: the number of digits in `UINT_MAX`. -/
def disUmaxd : Nat := 10

/-- `memcmp(left, right, n) > 0` for two buffers of equal length. -/
def memcmpPos : List UInt8 → List UInt8 → Bool
  | left :: lefts, right :: rights =>
    if left = right then memcmpPos lefts rights else decide (right < left)
  | _, _ => false

/-- The digit loop of `disrsi_` on a buffer of characters: multiply-and-add in
`unsigned` arithmetic, stopping at the first non-digit. -/
def disDigits : Nat → List UInt8 → Option Nat
  | value, [] => some value
  | value, byte :: bytes =>
    if 48 ≤ byte ∧ byte ≤ 57 then
      disDigits ((10 * value + (byte.toNat - 48)) % 2 ^ 32) bytes
    else
      none

/-- What `disrsi_` leaves behind.  `negate` and `value` are meaningful only
when the code is `success` or `overflow`. -/
structure IntRead where
  code : DisCode
  negate : Bool
  value : Nat
  chan : TcpChan
  deriving DecidableEq, Repr

/-- An `IntRead` of a failed call. -/
def IntRead.fail (code : DisCode) (chan : TcpChan) : IntRead :=
  ⟨code, false, 0, chan⟩

/-- The `'+'`/`'-'` branch of `disrsi_`: the magnitude itself. -/
def disrsiMagnitude (chan : TcpChan) (negate : Bool) (count : Nat) : IntRead :=
  match tcpGets chan count with
  | .error _ => .fail .eod chan
  | .ok (scratch, chan) =>
    if count > disUmaxd then
      ⟨.overflow, negate, uintMax, chan⟩
    else if count = disUmaxd ∧ memcmpPos scratch disUmax = true then
      ⟨.overflow, negate, uintMax, chan⟩
    else
      match disDigits 0 scratch with
      | none => .fail .nondigit chan
      | some value => ⟨.success, negate, value, chan⟩

/-- The `'1'`..`'9'` branch of `disrsi_`: the remaining digits of a count, up
to the point where the function calls itself. -/
def disrsiCount (chan : TcpChan) (c : Int) (count : Nat) : IntRead ⊕ (TcpChan × Nat) :=
  if count > 1 then
    match tcpGets chan (count - 1) with
    | .error _ => .inl (.fail .eod chan)
    | .ok (scratch, chan) =>
      if count > disUmaxd then
        .inl ⟨.overflow, false, uintMax, chan⟩
      else if count = disUmaxd ∧
          memcmpPos (UInt8.ofNat c.toNat :: scratch) disUmax = true then
        .inl ⟨.overflow, false, uintMax, chan⟩
      else
        match disDigits (c - 48).toNat scratch with
        | none => .inl (.fail .nondigit chan)
        | some ndigs => .inr (chan, ndigs)
  else
    .inr (chan, (c - 48).toNat)

/-- `disrsi_` with a bound on the depth of its recursion. -/
def disrsiFuel : Nat → TcpChan → Nat → IntRead
  | 0, chan, _ => .fail .invalid chan
  | fuel + 1, chan, count =>
    if count = 0 ∨ count > disBufsiz - 1 then
      .fail .invalid chan
    else
      let (c, chan) := tcpGetc chan
      -- the characters '-' and '+'
      if c = 45 ∨ c = 43 then
        disrsiMagnitude chan (c = 45) count
      else if c = 48 then
        .fail .leadzro chan
      else if 49 ≤ c ∧ c ≤ 57 then
        match disrsiCount chan c count with
        | .inl failed => failed
        | .inr (chan, ndigs) => disrsiFuel fuel chan ndigs
      else if c = -1 then
        .fail .eod chan
      else if c = -2 then
        .fail .eof chan
      else
        .fail .nondigit chan

/-- `disrsi_`: read one DIS integer whose first count has `count` digits. -/
def disrsi_ (chan : TcpChan) (count : Nat) : IntRead :=
  disrsiFuel (chan.rest.length + 1) chan count

/-- `disrui`: read an unsigned integer and commit, or restore the stream. -/
def disrui : Reader Nat := fun chan =>
  let read := disrsi_ chan 1
  if read.code ≠ .success then
    (.error read.code, tcpRcommit read.chan false)
  else if read.negate then
    (.error .badsign, tcpRcommit read.chan false)
  else
    (.ok read.value, tcpRcommit read.chan true)

/-! ## Counted strings -/

/-- `disrfcs`: read a counted string of at most `achars` bytes.  The string is
returned in place of the caller's buffer, which holds zeros before the call. -/
def disrfcs (achars : Nat) : Reader (List UInt8) := fun chan =>
  let read := disrsi_ chan 1
  if read.code ≠ .success then
    (.error read.code, tcpRcommit read.chan false)
  else if read.negate then
    (.error .badsign, tcpRcommit read.chan false)
  else if read.value > achars then
    (.error .overflow, tcpRcommit read.chan false)
  else
    match tcpGets read.chan read.value with
    | .error code =>
      -- the code is compared with the count as an `int`
      if code ≠ toCInt read.value then (.error .proto, tcpRcommit read.chan false)
      else (.ok (List.replicate read.value 0), tcpRcommit read.chan true)
    | .ok (value, chan) => (.ok value, tcpRcommit chan true)

/-! ## The limit of a counted string -/

/-- A successful `disrfcs` respects the limit it was given, and does not depend on how much larger
the limit is. -/
theorem disrfcs_eq_ok (read : disrfcs achars chan = (.ok value, next)) :
    value.length ≤ achars ∧
      ∀ limit, value.length ≤ limit → disrfcs limit chan = (.ok value, next) := by
  unfold disrfcs at read ⊢
  simp only at read ⊢
  split at read
  · cases read
  · rename_i success
    simp only [if_neg success]
    split at read
    · cases read
    · rename_i positive
      simp only [if_neg positive]
      split at read
      · cases read
      · rename_i few
        split at read
        · split at read
          · cases read
          · rename_i masked
            cases read
            rw [List.length_replicate]
            exact ⟨not_lt.mp few, fun limit within => by rw [if_neg within.not_gt, if_neg masked]⟩
        · rename_i got
          cases read
          rw [(tcpGets_eq_ok_iff_advances.mp got).1]
          exact ⟨not_lt.mp few, fun limit within => if_neg within.not_gt⟩

end Torque.Dis
