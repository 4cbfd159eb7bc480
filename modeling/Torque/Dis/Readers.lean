import Torque.Dis.Integer

/-!
# The DIS readers as transactions

Every DIS reader ends by committing what it has read or by going back to the last
committed position.  Most do both.  `disrsi` goes back never, and `disrst` does not go
back if the count of its string cannot be read.  The readers of strings take the
result of `tcp_gets` for the count if the two are the same `int`, and then commit
although the string is not there.
-/

namespace Torque.Dis

open List

/-! ## Signed integers -/

/-- The magnitudes of a signed type: up to its greatest number, or up to the magnitude of
its smallest one behind a minus. -/
def inSignedRange (bits : Nat) (negate : Bool) (uvalue : Nat) : Bool :=
  if negate then uvalue ≤ 2 ^ bits else uvalue ≤ 2 ^ bits - 1

/-- The test of the range in `disrsi`. -/
def inIntRange : Bool → Nat → Bool :=
  inSignedRange 31

/-- `disrsi`, which commits an integer that it has read and leaves the position where it
is otherwise. -/
def disrsi : Reader Int32 := fun chan =>
  let read := disrsi_ chan 1
  if read.code ≠ .success then
    (.error read.code, read.chan)
  else if inIntRange read.negate read.value then
    (.ok (.ofInt (if read.negate then -read.value else read.value)), tcpRcommit read.chan true)
  else
    (.error .overflow, read.chan)

/-- The other readers of signed integers.  `accepts` is the test of the range. -/
def readSigned {α : Type} (accepts : Bool → Nat → Bool) (convert : Int → α) (read : IntRead) :
    Except DisCode α × TcpChan :=
  if read.code ≠ .success then
    (.error read.code, tcpRcommit read.chan false)
  else if accepts read.negate read.value then
    (.ok (convert (if read.negate then -read.value else read.value)), tcpRcommit read.chan true)
  else
    (.error .overflow, tcpRcommit read.chan false)

/-- The test of the range in `disrsl`. -/
def inLongRange : Bool → Nat → Bool :=
  inSignedRange 63

/-- The test of the range in `disrsc` and `disrss`.  A magnitude behind a minus is
negated as an `unsigned` and compared as an `int`. -/
def inSmallRange (smallest : Int) (greatest : Nat) (negate : Bool) (uvalue : Nat) : Bool :=
  if negate then smallest ≤ toCInt (2 ^ 32 - uvalue) else uvalue ≤ greatest

/-- `disrsl`. -/
def disrsl : Reader Int64 := fun chan =>
  readSigned inLongRange .ofInt (disrsl_ chan 1)

/-- `disrsc`. -/
def disrsc : Reader Int8 := fun chan =>
  readSigned (inSmallRange (-128) 127) .ofInt (disrsi_ chan 1)

/-- `disrss`. -/
def disrss : Reader Int16 := fun chan =>
  readSigned (inSmallRange (-32768) 32767) .ofInt (disrsi_ chan 1)

/-! ## Unsigned integers -/

/-- `disrul`. -/
def disrul : Reader Nat := fun chan =>
  let read := disrsl_ chan 1
  if read.code ≠ .success then
    (.error read.code, tcpRcommit read.chan false)
  else if read.negate then
    (.error .badsign, tcpRcommit read.chan false)
  else
    (.ok read.value, tcpRcommit read.chan true)

/-- `disruc` and `disrus`, for types that are smaller than `unsigned int`. -/
def readSmallUnsigned (greatest : Nat) : Reader Nat := fun chan =>
  let read := disrsi_ chan 1
  if read.code ≠ .success then
    (.error read.code, tcpRcommit read.chan false)
  else if read.negate then
    (.error .badsign, tcpRcommit read.chan false)
  else if read.value > greatest then
    (.error .overflow, tcpRcommit read.chan false)
  else
    (.ok read.value, tcpRcommit read.chan true)

/-- `disruc`. -/
def disruc : Reader Nat := readSmallUnsigned 255

/-- `disrus`. -/
def disrus : Reader Nat := readSmallUnsigned 65535

/-- What the readers of unsigned integers have in common. -/
def readUnsigned (accepts : Nat → Bool) (read : IntRead) : Except DisCode Nat × TcpChan :=
  if read.code ≠ .success then
    (.error read.code, tcpRcommit read.chan false)
  else if read.negate then
    (.error .badsign, tcpRcommit read.chan false)
  else if accepts read.value then
    (.ok read.value, tcpRcommit read.chan true)
  else
    (.error .overflow, tcpRcommit read.chan false)

theorem readSmallUnsigned_eq (greatest : Nat) (chan : TcpChan) :
    readSmallUnsigned greatest chan = readUnsigned (· ≤ greatest) (disrsi_ chan 1) := by
  simp only [readSmallUnsigned, readUnsigned, decide_eq_true_eq, ← Nat.not_lt, ite_not]

/-! ## Strings -/

/-- What the readers of strings find around them: whether the library was compiled with
`NDEBUG`, which allocations succeed, what the caller's buffer holds, and what the sign is
after a `disrsi_` that failed, which may not have set it. -/
structure Platform where
  ndebug : Bool
  calloc : Nat → Bool
  buffer : Nat → UInt8
  garbage : Bool

/-- `tcp_gets` into a string of `count` characters, as its callers see it: whether the
result is the count as an `int`, and what the string then holds. -/
def getString (initial : List UInt8) (chan : TcpChan) (count : Nat) :
    Option (List UInt8) × TcpChan :=
  match tcpGets chan count with
  | .error code => (if code ≠ toCInt count then none else some initial, chan)
  | .ok (value, chan) => (some value, chan)

/-- How the readers of strings go on behind the count: the string is fetched, and, if
`nullstr` is set, searched for zeros. -/
def storeString (nullstr : Bool) (initial : List UInt8) (chan : TcpChan) (count : Nat) :
    Except DisCode (List UInt8) × TcpChan :=
  match getString initial chan count with
  | (none, chan) => (.error .proto, tcpRcommit chan false)
  | (some value, chan) =>
    if nullstr = true ∧ 0 ∈ value then (.error .nullstr, tcpRcommit chan false)
    else (.ok value, tcpRcommit chan true)

section

variable (platform : Platform)

/-- `disrst`, which reads a string without embedded zeros, and allocates it. -/
def disrst : Reader (List UInt8) := fun chan =>
  let read := disrsi_ chan 1
  if read.code ≠ .success then
    (.error read.code, read.chan)
  else if read.negate then
    (.error .badsign, tcpRcommit read.chan false)
  else if platform.calloc (read.value + 1) = false then
    (.error .nomalloc, tcpRcommit read.chan false)
  else
    storeString (!platform.ndebug) (replicate read.value 0) read.chan read.value

/-- `disrfst`, which reads a string of at most `achars` characters into a buffer. -/
def disrfst (achars : Nat) : Reader (List UInt8) := fun chan =>
  let read := disrsi_ chan 1
  if read.code ≠ .success then
    (.error read.code, tcpRcommit read.chan false)
  else if read.negate then
    (.error .badsign, tcpRcommit read.chan false)
  else if read.value > achars then
    (.error .overflow, tcpRcommit read.chan false)
  else
    storeString (!platform.ndebug) ((range read.value).map platform.buffer) read.chan
      read.value

/-- `disrcs`, which reads any bytes, and allocates them.  It looks at the sign before it
knows that there is one. -/
def disrcs : Reader (List UInt8) := fun chan =>
  let read := disrsi_ chan 1
  let negate :=
    if read.code = .success ∨ read.code = .overflow then read.negate else platform.garbage
  if negate then
    (.error .badsign, tcpRcommit read.chan false)
  else if read.code ≠ .success then
    (.error read.code, tcpRcommit read.chan false)
  else if platform.calloc (read.value + 1) = false then
    (.error .nomalloc, tcpRcommit read.chan false)
  else
    storeString false (replicate read.value 0) read.chan read.value

theorem disrfcs_eq (achars : Nat) (chan : TcpChan) :
    disrfcs achars chan =
      let read := disrsi_ chan 1
      if read.code ≠ .success then
        (.error read.code, tcpRcommit read.chan false)
      else if read.negate then
        (.error .badsign, tcpRcommit read.chan false)
      else if read.value > achars then
        (.error .overflow, tcpRcommit read.chan false)
      else
        storeString false (replicate read.value 0) read.chan read.value := by
  simp only [disrfcs, storeString, getString]
  cases tcpGets (disrsi_ chan 1).chan (disrsi_ chan 1).value with
  | error code =>
    by_cases masked : code ≠ toCInt (disrsi_ chan 1).value
    · simp only [if_pos masked]
    · simp [if_neg masked]
  | ok got => simp

/-! ## Transactions -/

variable (chan : TcpChan)

/-- The position is back at the last commit. -/
def WentBack (next : TcpChan) : Prop :=
  next = ⟨[], chan.pending ++ chan.rest, chan.ended⟩

/-- The stream is committed up to the end of the item. -/
def CommittedBehind (item : List UInt8) (chan next : TcpChan) : Prop :=
  ∃ rest, chan.rest = item ++ rest ∧ next = ⟨[], rest, chan.ended⟩

/-- A failed read has consumed nothing, and a successful one exactly the item read. -/
def Settles {α : Type} (IsItem : List UInt8 → α → Prop) (chan : TcpChan) :
    Except DisCode α × TcpChan → Prop
  | (.error _, next) => WentBack chan next
  | (.ok value, next) => ∃ item, IsItem item value ∧ CommittedBehind item chan next

/-- The item that a reader of integers reads. -/
def IsInteger (fmt : IntFormat) {α : Type} (item : List UInt8) (_ : α) : Prop :=
  ∃ negate value, DisInteger fmt 1 item negate value

/-- The item that a reader of strings reads: the count, and that many bytes. -/
def IsString (item value : List UInt8) : Prop :=
  ∃ head, DisInteger unsignedInt 1 head false value.length ∧ item = head ++ value

/-- The readers. -/
inductive DisReader where
  | disrsi
  | disrsl
  | disrui
  | disrul
  | disrsc
  | disrss
  | disruc
  | disrus
  | disrst
  | disrfst (achars : Nat)
  | disrcs
  | disrfcs (achars : Nat)

/-- A call of the reader is a transaction. -/
def DisReader.Transacts : DisReader → Prop
  | .disrsi => Settles (IsInteger unsignedInt) chan (Dis.disrsi chan)
  | .disrsl => Settles (IsInteger unsignedLong) chan (Dis.disrsl chan)
  | .disrui => Settles (IsInteger unsignedInt) chan (Dis.disrui chan)
  | .disrul => Settles (IsInteger unsignedLong) chan (Dis.disrul chan)
  | .disrsc => Settles (IsInteger unsignedInt) chan (Dis.disrsc chan)
  | .disrss => Settles (IsInteger unsignedInt) chan (Dis.disrss chan)
  | .disruc => Settles (IsInteger unsignedInt) chan (Dis.disruc chan)
  | .disrus => Settles (IsInteger unsignedInt) chan (Dis.disrus chan)
  | .disrst => Settles IsString chan (Dis.disrst platform chan)
  | .disrfst achars => Settles IsString chan (Dis.disrfst platform achars chan)
  | .disrcs => Settles IsString chan (Dis.disrcs platform chan)
  | .disrfcs achars => Settles IsString chan (Dis.disrfcs achars chan)

/-- The stream begins with an integer of this kind. -/
def BeginsWith (kind : Bool → Nat → Prop) (chan : TcpChan) : Prop :=
  ∃ item negate value, DisInteger unsignedInt 1 item negate value ∧ item <+: chan.rest ∧
    kind negate value

/-- There is nothing to read and nothing to go back over. -/
def AtEnd : Prop :=
  chan.pending = [] ∧ chan.rest = []

/-- The stream begins with the count of a string, ends before the string does, and the
error that `tcp_gets` then returns is the count as an `int`. -/
def Masked (count : Nat) : Prop :=
  ∃ head rest, DisInteger unsignedInt 1 head false count ∧ chan.rest = head ++ rest ∧
    rest.length < count ∧ chan.ended.code = toCInt count

/-- The calls that are transactions.  For `disrsi` and `disrst` the integer in front has
to be read, unless there is nothing to read at all; for the readers of strings no error
of `tcp_gets` is mistaken for the count. -/
def DisReader.Clean : DisReader → Prop
  | .disrsi => BeginsWith (fun negate value => inIntRange negate value = true) chan ∨ AtEnd chan
  | .disrst =>
    (BeginsWith (fun _ _ => True) chan ∨ AtEnd chan) ∧
      ∀ count, Masked chan count → platform.calloc (count + 1) = true →
        platform.ndebug = false
  | .disrcs => ∀ count, Masked chan count → platform.calloc (count + 1) = false
  | .disrfst achars =>
    ∀ count, Masked chan count → count ≤ achars →
      platform.ndebug = false ∧ ∃ index < count, platform.buffer index = 0
  | .disrfcs achars => ∀ count, Masked chan count → achars < count
  | _ => True

end

/-! ## Calls that end with a commit -/

section

variable {α : Type} {IsItem : List UInt8 → α → Prop} {chan : TcpChan} {fmt : IntFormat}
  {read : IntRead}

/-- A call goes back from where it has come, or commits the item that it has read. -/
inductive Ends (IsItem : List UInt8 → α → Prop) (chan : TcpChan) :
    Except DisCode α × TcpChan → Prop
  | back (code : DisCode) {bytes : List UInt8} {next : TcpChan}
      (advances : Advances chan bytes next) : Ends IsItem chan (.error code, tcpRcommit next false)
  | commit {value : α} {item : List UInt8} {next : TcpChan} (isItem : IsItem item value)
      (advances : Advances chan item next) : Ends IsItem chan (.ok value, tcpRcommit next true)

theorem Ends.settles {result : Except DisCode α × TcpChan} (ends : Ends IsItem chan result) :
    Settles IsItem chan result := by
  cases ends with
  | back code advances =>
    unfold Settles WentBack
    rw [← advances.stream, ← advances.ended]
    rfl
  | commit isItem advances =>
    refine ⟨_, isItem, _, advances.rest, ?_⟩
    rw [← advances.ended]
    rfl

variable (moved : ∃ bytes, Advances chan bytes read.chan)
  (success : read.code = .success → ∃ item, DisInteger fmt 1 item read.negate read.value ∧
    Advances chan item read.chan)
include moved success

/-- The readers of signed integers with a commit at the end. -/
theorem ends_readSigned {accepts : Bool → Nat → Bool} {convert : Int → α} :
    Ends (IsInteger fmt) chan (readSigned accepts convert read) := by
  obtain ⟨bytes, advances⟩ := moved
  unfold readSigned
  split
  · exact .back _ advances
  · rename_i code
    split
    · obtain ⟨item, integer, past⟩ := success (not_not.mp code)
      exact .commit ⟨_, _, integer⟩ past
    · exact .back _ advances

/-- The readers of unsigned integers. -/
theorem ends_readUnsigned (accepts : Nat → Bool) :
    Ends (IsInteger fmt) chan (readUnsigned accepts read) := by
  obtain ⟨bytes, advances⟩ := moved
  unfold readUnsigned
  split
  · exact .back _ advances
  · rename_i code
    split
    · exact .back _ advances
    · split
      · obtain ⟨item, integer, past⟩ := success (not_not.mp code)
        exact .commit ⟨_, _, integer⟩ past
      · exact .back _ advances

end

/-! ## Calls that do not -/

section

variable {chan next : TcpChan} {item initial : List UInt8} {negate nullstr : Bool}
  {value count : Nat} {platform : Platform} {code : DisCode}

/-- `disrsi_` on a stream that begins with an integer. -/
theorem disrsi_of_integer (integer : DisInteger unsignedInt 1 item negate value)
    {rest : List UInt8} (starts : chan.rest = item ++ rest) :
    disrsi_ chan 1 = ⟨.success, negate, value, ⟨chan.pending ++ item, rest, chan.ended⟩⟩ :=
  disrsi_eq_success_iff.mpr ⟨item, integer, starts, rfl, rfl⟩

section

variable (read : disrsi_ chan 1 = ⟨code, negate, value, next⟩)
include read

theorem beginsWith_iff {kind : Bool → Nat → Prop} :
    BeginsWith kind chan ↔ code = .success ∧ kind negate value := by
  constructor
  · rintro ⟨item, negate, value, integer, ⟨rest, starts⟩, holds⟩
    cases read.symm.trans (disrsi_of_integer integer starts.symm)
    exact ⟨rfl, holds⟩
  · rintro ⟨rfl, holds⟩
    obtain ⟨item, integer, advances⟩ := disrsi_eq_success_iff.mp read
    exact ⟨item, _, _, integer, ⟨_, advances.rest.symm⟩, holds⟩

theorem masked_iff :
    Masked chan count ↔ code = .success ∧ negate = false ∧ value = count ∧
      next.rest.length < count ∧ chan.ended.code = toCInt count := by
  constructor
  · rintro ⟨head, rest, integer, starts, short, ended⟩
    cases read.symm.trans (disrsi_of_integer integer starts)
    exact ⟨rfl, rfl, rfl, short, ended⟩
  · rintro ⟨rfl, rfl, rfl, short, ended⟩
    obtain ⟨head, integer, advances⟩ := disrsi_eq_success_iff.mp read
    exact ⟨head, _, integer, advances.rest, short, ended⟩

/-- A call that leaves the position where it is has gone back only if there was nothing
to read. -/
theorem wentBack_disrsi_iff : WentBack chan next ↔ AtEnd chan := by
  obtain ⟨bytes, advances, taken⟩ := advances_disrsi chan
  rw [read] at advances
  dsimp only at advances
  constructor
  · intro back
    have pending : chan.pending ++ bytes = [] := by
      rw [← advances.pending, back]
    obtain ⟨nonePending, noneTaken⟩ := append_eq_nil_iff.mp pending
    exact ⟨nonePending, taken noneTaken⟩
  · rintro ⟨nonePending, dry⟩
    have none : bytes = [] := by
      have stream := advances.rest
      rw [dry] at stream
      exact (append_eq_nil_iff.mp stream.symm).1
    subst none
    rw [(advances.unique (Advances.refl chan) rfl).2, WentBack, nonePending]
    exact TcpChan.ext nonePending rfl rfl

end

/-- Behind the count, a call is a transaction unless the error of `tcp_gets` is taken for
the count and the string that is there already passes. -/
theorem settles_storeString_iff (read : disrsi_ chan 1 = ⟨.success, false, value, next⟩)
    (length : initial.length = value) :
    Settles IsString chan (storeString nullstr initial next value) ↔
      ∀ count, Masked chan count → nullstr = true ∧ 0 ∈ initial := by
  obtain ⟨head, integer, advances⟩ := disrsi_eq_success_iff.mp read
  have maskedHere : (∃ count, Masked chan count) ↔
      next.rest.length < value ∧ chan.ended.code = toCInt value := by
    simp [masked_iff read]
  rw [← exists_imp, maskedHere]
  unfold storeString getString
  cases got : tcpGets next value with
  | ok answer =>
    obtain ⟨string, last⟩ := answer
    obtain ⟨stringLength, past⟩ := tcpGets_eq_ok_iff_advances.mp got
    have enough : ¬ next.rest.length < value := by
      rw [past.rest, length_append]
      omega
    have settled : Ends IsString chan
        (if nullstr = true ∧ 0 ∈ string then (.error .nullstr, tcpRcommit last false)
          else (.ok string, tcpRcommit last true)) := by
      split
      · exact .back _ (advances.trans past)
      · exact .commit ⟨head, stringLength ▸ integer, rfl⟩ (advances.trans past)
    exact iff_of_true settled.settles fun masked => absurd masked.1 enough
  | error code =>
    obtain ⟨short, codeEq⟩ := tcpGets_eq_error_iff.mp got
    rw [advances.ended] at codeEq
    simp only
    by_cases masked : code ≠ toCInt value
    · rw [if_pos masked]
      refine iff_of_true (Ends.back _ advances).settles fun both => ?_
      exact absurd (codeEq.symm.trans both.2) masked
    · rw [if_neg masked]
      have isMasked := not_not.mp masked
      by_cases found : nullstr = true ∧ 0 ∈ initial
      · simp only [if_pos found]
        exact iff_of_true (Ends.back _ advances).settles fun _ => found
      · simp only [if_neg found]
        refine iff_of_false ?_ fun clean => found (clean ⟨short, codeEq.trans isMasked⟩)
        rintro ⟨item, ⟨head', integer', rfl⟩, rest, starts, back⟩
        have restEq : next.rest = rest := congrArg TcpChan.rest back
        have whole : head ++ rest = head' ++ (initial ++ rest) := by
          rw [← restEq, ← advances.rest, starts, restEq, append_assoc]
        obtain ⟨rfl, _, _⟩ := integer.unique integer' whole
        have empty : initial = [] := by
          have cancelled := append_cancel_left whole
          exact self_eq_append_left.mp cancelled
        rw [empty] at length
        simp only [length_nil] at length
        omega

/-- Behind the count, a call may refuse a minus, and the count for a reason of its own. -/
theorem settles_guarded_iff (refused : Nat → Prop) [DecidablePred refused]
    (read : disrsi_ chan 1 = ⟨.success, negate, value, next⟩)
    (length : initial.length = value) :
    Settles IsString chan
        (if negate = true then (.error .badsign, tcpRcommit next false)
        else if refused value then (.error code, tcpRcommit next false)
        else storeString nullstr initial next value) ↔
      ∀ count, Masked chan count → ¬ refused count → nullstr = true ∧ 0 ∈ initial := by
  obtain ⟨item, integer, advances⟩ := disrsi_eq_success_iff.mp read
  cases negate with
  | true =>
    refine iff_of_true (Ends.back _ advances).settles ?_
    intro count masked
    exact absurd ((masked_iff read).mp masked).2.1 nofun
  | false =>
    have counted {count : Nat} (masked : Masked chan count) : value = count :=
      ((masked_iff read).mp masked).2.2.1
    rw [if_neg Bool.false_ne_true]
    by_cases bad : refused value
    · rw [if_pos bad]
      refine iff_of_true (Ends.back _ advances).settles ?_
      intro count masked good
      exact absurd (counted masked ▸ bad) good
    · rw [if_neg bad, settles_storeString_iff read length]
      refine forall_congr' fun count => forall_congr' fun masked => ?_
      exact (imp_iff_right (counted masked ▸ bad)).symm

theorem settles_disrsi_iff :
    Settles (IsInteger unsignedInt) chan (disrsi chan) ↔
      BeginsWith (fun negate value => inIntRange negate value = true) chan ∨ AtEnd chan := by
  rcases read : disrsi_ chan 1 with ⟨code, negate, value, next⟩
  rw [beginsWith_iff read]
  simp only [disrsi, read]
  by_cases success : code = .success
  · subst success
    rw [if_neg (not_not.mpr rfl)]
    obtain ⟨item, integer, advances⟩ := disrsi_eq_success_iff.mp read
    by_cases inRange : inIntRange negate value = true
    · rw [if_pos inRange]
      exact iff_of_true (Ends.commit ⟨_, _, integer⟩ advances).settles (Or.inl ⟨rfl, inRange⟩)
    · rw [if_neg inRange]
      change WentBack chan _ ↔ _
      simp [wentBack_disrsi_iff read, inRange]
  · rw [if_pos success]
    change WentBack chan _ ↔ _
    simp [wentBack_disrsi_iff read, success]

theorem settles_disrst_iff : Settles IsString chan (disrst platform chan) ↔
      (BeginsWith (fun _ _ => True) chan ∨ AtEnd chan) ∧
        ∀ count, Masked chan count → platform.calloc (count + 1) = true →
          platform.ndebug = false := by
  rcases read : disrsi_ chan 1 with ⟨code, negate, value, next⟩
  rw [beginsWith_iff read]
  simp only [disrst, read]
  by_cases success : code = .success
  · subst success
    rw [if_neg (not_not.mpr rfl), settles_guarded_iff
      (fun count => platform.calloc (count + 1) = false) read length_replicate,
      and_iff_right (Or.inl ⟨rfl, trivial⟩)]
    refine forall_congr' fun count => forall_congr' fun masked => ?_
    obtain ⟨_, _, rfl, short, _⟩ := (masked_iff read).mp masked
    have zeros : (0 : UInt8) ∈ replicate value 0 := mem_replicate.mpr ⟨by omega, rfl⟩
    simp [zeros]
  · rw [if_pos success]
    change WentBack chan _ ↔ _
    rw [wentBack_disrsi_iff read]
    constructor
    · intro atEnd
      exact ⟨Or.inr atEnd, fun count masked => absurd ((masked_iff read).mp masked).1 success⟩
    · rintro ⟨⟨code, _⟩ | atEnd, _⟩
      · exact absurd code success
      · exact atEnd

theorem settles_disrcs_iff : Settles IsString chan (disrcs platform chan) ↔
      ∀ count, Masked chan count → platform.calloc (count + 1) = false := by
  obtain ⟨bytes, moved, _⟩ := advances_disrsi chan
  rcases read : disrsi_ chan 1 with ⟨code, negate, value, next⟩
  rw [read] at moved
  simp only [disrcs, read]
  by_cases success : code = .success
  · subst success
    rw [if_pos (Or.inl rfl), if_neg (not_not.mpr rfl), settles_guarded_iff
      (fun count => platform.calloc (count + 1) = false) read length_replicate]
    refine forall_congr' fun count => forall_congr' fun masked => ?_
    simp
  · refine iff_of_true ?_ fun count masked => absurd ((masked_iff read).mp masked).1 success
    rw [if_pos success]
    generalize (if code = .success ∨ code = .overflow then negate else platform.garbage) = sign
    cases sign with
    | true => exact (Ends.back _ moved).settles
    | false => exact (Ends.back _ moved).settles

/-- The two readers that are given a limit. -/
theorem settles_limited_iff {achars : Nat}
    (read : disrsi_ chan 1 = ⟨code, negate, value, next⟩) (length : initial.length = value) :
    Settles IsString chan
        (if code ≠ .success then (.error code, tcpRcommit next false)
        else if negate = true then (.error .badsign, tcpRcommit next false)
        else if value > achars then (.error .overflow, tcpRcommit next false)
        else storeString nullstr initial next value) ↔
      ∀ count, Masked chan count → count ≤ achars → nullstr = true ∧ 0 ∈ initial := by
  obtain ⟨bytes, moved, _⟩ := advances_disrsi chan
  rw [read] at moved
  by_cases success : code = .success
  · subst success
    rw [if_neg (not_not.mpr rfl), settles_guarded_iff (fun count => count > achars) read length]
    refine forall_congr' fun count => forall_congr' fun masked => ?_
    rw [Nat.not_lt]
  · refine iff_of_true ?_ fun count masked => absurd ((masked_iff read).mp masked).1 success
    rw [if_pos success]
    exact (Ends.back _ moved).settles

end

/-- A call of a reader is a transaction, for every stream, exactly if it is clean. -/
theorem reader_transacts_iff_clean (platform : Platform) (chan : TcpChan) (reader : DisReader) :
    reader.Transacts platform chan ↔ reader.Clean platform chan := by
  have moved : ∃ bytes, Advances chan bytes (disrsi_ chan 1).chan := by
    obtain ⟨bytes, advances, _⟩ := advances_disrsi chan
    exact ⟨bytes, advances⟩
  have unsigned (accepts : Nat → Bool) :
      Ends (IsInteger unsignedInt) chan (readUnsigned accepts (disrsi_ chan 1)) :=
    ends_readUnsigned moved disrsi_success accepts
  have small (greatest : Nat) :
      Ends (IsInteger unsignedInt) chan (readSmallUnsigned greatest chan) := by
    rw [readSmallUnsigned_eq]
    exact unsigned _
  rcases read : disrsi_ chan 1 with ⟨code, negate, value, next⟩
  cases reader with
  | disrsi => exact settles_disrsi_iff
  | disrsl =>
    exact iff_of_true (ends_readSigned (advances_disrsl chan) disrsl_success).settles trivial
  | disrui => exact iff_of_true (unsigned fun _ => true).settles trivial
  | disrul =>
    have unsignedLong := ends_readUnsigned (advances_disrsl chan) disrsl_success fun _ => true
    exact iff_of_true unsignedLong.settles trivial
  | disrsc => exact iff_of_true (ends_readSigned moved disrsi_success).settles trivial
  | disrss => exact iff_of_true (ends_readSigned moved disrsi_success).settles trivial
  | disruc => exact iff_of_true (small 255).settles trivial
  | disrus => exact iff_of_true (small 65535).settles trivial
  | disrst => exact settles_disrst_iff
  | disrfst achars =>
    change Settles IsString chan (disrfst platform achars chan) ↔ _
    simp only [disrfst, read]
    refine (settles_limited_iff read (by simp)).trans ?_
    refine forall_congr' fun count => forall_congr' fun masked => ?_
    rw [((masked_iff read).mp masked).2.2.1]
    simp
  | disrcs => exact settles_disrcs_iff
  | disrfcs achars =>
    change Settles IsString chan (disrfcs achars chan) ↔ _
    simp only [disrfcs_eq, read]
    refine (settles_limited_iff read length_replicate).trans ?_
    refine forall_congr' fun count => forall_congr' fun masked => ?_
    simp

/-- A zero in front of an integer is consumed although the call fails. -/
theorem leading_zero_consumed :
    ¬ ∀ (platform : Platform) (chan : TcpChan) (reader : DisReader),
      reader.Transacts platform chan := by
  intro transacts
  have settled := transacts ⟨false, fun _ => true, fun _ => 0, false⟩ ⟨[], [48], .closed⟩ .disrsi
  cases settled

end Torque.Dis
