import Mathlib.Data.UInt

/-!
# The read side of a DIS channel

Data-is-Strings readers see a `tcp_chan` through three support routines of
`tcp_dis.c`: `tcp_gets`, `tcp_getc` and `tcp_rcommit`.  The channel is modelled
as the byte stream it delivers, cut at the two read pointers: the bytes read
since the last commit (from `tdis_trailp` to `tdis_leadp`) and the bytes still
to be read, whether they are already buffered or not.

A stream that runs dry makes `tcp_gets` fail.  Which of its two error codes it
then returns depends on how the last bytes arrived, so the code is part of the
channel and left arbitrary.
-/

namespace Torque.Dis

open List

/-- Return codes of the DIS reading calls (`dis.h`). -/
inductive DisCode where
  | success
  | overflow
  | hugeval
  | badsign
  | leadzro
  | nondigit
  | nullstr
  | eod
  | nomalloc
  | proto
  | nocommit
  | eof
  | invalid
  deriving DecidableEq, Repr

/-- What `tcp_gets` reports once the stream has run dry: `-1` for an error in
the middle of a message, `-2` for a stream that was closed. -/
inductive StreamEnd where
  | failed
  | closed
  deriving DecidableEq, Repr

/-- The C return value of a failed `tcp_gets`. -/
def StreamEnd.code : StreamEnd → Int
  | .failed => -1
  | .closed => -2

/-- Conversion of a `size_t` to `int`. -/
def toCInt (n : Nat) : Int :=
  (BitVec.ofNat 32 n).toInt

theorem toCInt_le (n : Nat) : toCInt n ≤ n := by
  have wrapped := BitVec.toInt_eq_toNat_cond (BitVec.ofNat 32 n)
  rw [toCInt, wrapped, BitVec.toNat_ofNat]
  split <;> omega

theorem toCInt_of_lt {n : Nat} (small : n < 2 ^ 31) : toCInt n = n := by
  rw [toCInt, BitVec.toInt_eq_toNat_cond, BitVec.toNat_ofNat]
  have bound : n % 2 ^ 32 = n := Nat.mod_eq_of_lt (by omega)
  rw [bound, if_pos (by omega)]

/-- The read side of a `tcp_chan`. -/
@[ext]
structure TcpChan where
  /-- Bytes between `tdis_trailp` and `tdis_leadp`: read, not yet committed. -/
  pending : List UInt8
  /-- Bytes from `tdis_leadp` on, including those still on the socket. -/
  rest : List UInt8
  /-- The error reported when `rest` is too short. -/
  ended : StreamEnd
  deriving DecidableEq, Repr

/-- `tcp_gets`: take `ct` bytes from the stream.  A failed call leaves both
read pointers where they were. -/
def tcpGets (chan : TcpChan) (ct : Nat) : Except Int (List UInt8 × TcpChan) :=
  if chan.rest.length < ct then
    .error chan.ended.code
  else
    .ok (chan.rest.take ct,
      { chan with
        pending := chan.pending ++ chan.rest.take ct
        rest := chan.rest.drop ct })

/-- A byte read into a C `char`, which is signed on the supported platforms. -/
def signedChar (byte : UInt8) : Int :=
  byte.toInt8.toInt

/-- `tcp_getc`: the next byte as a sign-extended `char`, or the error code of
`tcp_gets`.  The caller cannot tell the bytes `0xff` and `0xfe` from an error. -/
def tcpGetc (chan : TcpChan) : Int × TcpChan :=
  match chan.rest with
  | [] => (chan.ended.code, chan)
  | byte :: rest =>
    (signedChar byte, { chan with pending := chan.pending ++ [byte], rest := rest })

/-- `tcp_rcommit`: move the trailing pointer up, or the leading pointer back.
The C function always returns 0. -/
def tcpRcommit (chan : TcpChan) (commitFlag : Bool) : TcpChan :=
  if commitFlag then
    { chan with pending := [] }
  else
    { chan with pending := [], rest := chan.pending ++ chan.rest }

/-! ## Readers -/

/-- A reader of the channel: a DIS return code or a value, and in both cases
the channel as the call leaves it. -/
def Reader (α : Type) : Type :=
  TcpChan → Except DisCode α × TcpChan

namespace Reader

variable {α β : Type}

/-- Return a value without touching the channel. -/
def pure (value : α) : Reader α :=
  fun chan => (.ok value, chan)

/-- Give up with a return code. -/
def fail (code : DisCode) : Reader α :=
  fun chan => (.error code, chan)

variable (reader : Reader α) (next : α → Reader β)

/-- Run one reader after another; the first failure ends the sequence. -/
def bind : Reader β :=
  fun chan =>
    match reader chan with
    | (.error code, chan) => (.error code, chan)
    | (.ok value, chan) => next value chan

instance : Monad Reader where
  pure := Reader.pure
  bind := Reader.bind

variable {reader next} in
/-- A sequence succeeds exactly when both its parts do. -/
theorem bind_eq_ok_iff {chan final : TcpChan} {result : β} :
    (reader >>= next) chan = (.ok result, final) ↔
      ∃ value middle, reader chan = (.ok value, middle) ∧
        next value middle = (.ok result, final) := by
  change Reader.bind reader next chan = _ ↔ _
  unfold Reader.bind
  cases first : reader chan with
  | mk outcome middle =>
    cases outcome with
    | error code => simp
    | ok value => simp

end Reader

/-! ## Moving along the stream -/

/-- The reading position has moved over `bytes`, which are now pending. -/
structure Advances (chan : TcpChan) (bytes : List UInt8) (next : TcpChan) : Prop where
  rest : chan.rest = bytes ++ next.rest
  pending : next.pending = chan.pending ++ bytes
  ended : next.ended = chan.ended

namespace Advances

variable {chan middle next : TcpChan} {bytes more : List UInt8}

theorem refl (chan : TcpChan) : Advances chan [] chan :=
  ⟨rfl, (append_nil _).symm, rfl⟩

theorem trans (first : Advances chan bytes middle) (second : Advances middle more next) :
    Advances chan (bytes ++ more) next where
  rest := by rw [first.rest, second.rest, append_assoc]
  pending := by rw [second.pending, first.pending, append_assoc]
  ended := second.ended.trans first.ended

/-- Where the position ends up depends on the number of bytes only. -/
theorem unique (first : Advances chan bytes middle) (second : Advances chan more next)
    (same : bytes.length = more.length) : bytes = more ∧ middle = next := by
  obtain ⟨bytesEq, restEq⟩ := append_inj (first.rest.symm.trans second.rest) same
  refine ⟨bytesEq, TcpChan.ext ?_ restEq (first.ended.trans second.ended.symm)⟩
  rw [first.pending, second.pending, bytesEq]

/-- The second part of a move, behind its first part. -/
theorem behind (whole : Advances chan (bytes ++ more) next) (first : Advances chan bytes middle) :
    Advances middle more next where
  rest := by
    have same : bytes ++ middle.rest = bytes ++ (more ++ next.rest) := by
      rw [← first.rest, whole.rest, append_assoc]
    exact append_cancel_left same
  pending := by rw [whole.pending, first.pending, append_assoc]
  ended := whole.ended.trans first.ended.symm

/-- A move over two parts stops between them. -/
theorem exists_between (whole : Advances chan (bytes ++ more) next) :
    ∃ middle, Advances chan bytes middle ∧ Advances middle more next := by
  let middle : TcpChan := ⟨chan.pending ++ bytes, more ++ next.rest, chan.ended⟩
  have first : Advances chan bytes middle := by
    refine ⟨?_, rfl, rfl⟩
    rw [whole.rest, append_assoc]
  exact ⟨middle, first, whole.behind first⟩

/-- The stream is the same as before, cut at another place. -/
theorem stream (advances : Advances chan bytes next) :
    next.pending ++ next.rest = chan.pending ++ chan.rest := by
  rw [advances.pending, advances.rest, append_assoc]

end Advances

variable {chan next : TcpChan} {ct : Nat} {bytes : List UInt8}

/-- A successful `tcp_gets` returns exactly the bytes asked for and advances
the stream past them. -/
theorem tcpGets_eq_ok_iff_advances :
    tcpGets chan ct = .ok (bytes, next) ↔ bytes.length = ct ∧ Advances chan bytes next := by
  unfold tcpGets
  constructor
  · intro got
    split at got
    · cases got
    · next enough =>
      cases got
      exact ⟨length_take_of_le (not_lt.mp enough), (take_append_drop _ _).symm, rfl, rfl⟩
  · rintro ⟨rfl, rest, pending, ended⟩
    have enough : bytes.length ≤ chan.rest.length := by
      rw [rest, length_append]
      exact Nat.le_add_right _ _
    rw [if_neg enough.not_gt, rest, take_left, drop_left, ← pending, ← ended]

/-- A call of `tcp_gets` that fails finds too few bytes. -/
theorem tcpGets_eq_error_iff {code : Int} :
    tcpGets chan ct = .error code ↔ chan.rest.length < ct ∧ chan.ended.code = code := by
  unfold tcpGets
  by_cases short : chan.rest.length < ct
  · simp [short]
  · simp [short]

theorem tcpGetc_cons {byte : UInt8} {rest : List UInt8} (starts : chan.rest = byte :: rest) :
    (tcpGetc chan).1 = signedChar byte ∧ Advances chan [byte] (tcpGetc chan).2 := by
  unfold tcpGetc
  rw [starts]
  exact ⟨rfl, starts, rfl, rfl⟩

theorem tcpGetc_nil (dry : chan.rest = []) : tcpGetc chan = (chan.ended.code, chan) := by
  unfold tcpGetc
  rw [dry]

end Torque.Dis
