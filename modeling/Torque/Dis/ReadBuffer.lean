import Torque.Dis.Buffer
import Torque.Transition.Run

/-!
# The read buffer

`tcp_gets` hands out bytes from the read buffer of a channel and calls `tcp_read` for
more as long as there are too few.  `tcp_read` packs the buffer and puts what the socket
has behind the data.  If there is no room for it, a larger buffer is allocated, and the
old data and the new are printed into it as C strings.

The caller sees the bytes that arrived, in their order, and sees them again if it does
not commit them, as long as each time the buffer grows nothing but zeros follows a zero
in what is printed, the allocation succeeds and the sizes are those of an `int`.  Besides,
`tcp_getc` returns a `char`, and two of its values are those that stand for a failure.
-/

namespace Torque.Dis.Buffered

open Torque.Structure Torque.Transition List TcpDisBuf

variable {chunk : List UInt8} {tp : TcpDisBuf}

/-! ## Reading from the socket -/

/-- What one call of `socket_read` does: it fails, or it delivers a chunk.  `calloc` says
whether a larger buffer could be allocated for the chunk. -/
inductive Delivery where
  | refused
  | chunk (bytes : List UInt8) (calloc : Bool)

/-- The bytes that were taken from the socket. -/
def Delivery.bytes : Delivery → List UInt8
  | .refused => []
  | .chunk bytes _ => bytes

/-- The characters that `%s` prints of a block of memory. -/
def cString (memory : List UInt8) : List UInt8 :=
  memory.takeWhile (· ≠ 0)

/-- `newsize`: twice the sum of the old size, as an `int`, and the length of the chunk, as an
`unsigned long`. -/
def growSize (tp : TcpDisBuf) (readLen : Nat) : Nat :=
  ((toCInt tp.bufsize + readLen) * 2 % 2 ^ 64).toNat

/-- The block of `newsize + 1` zeros into which `snprintf` has printed two strings. -/
def printJoined (newsize : Nat) (thebuf chunk : List UInt8) : List UInt8 :=
  let text := (cString thebuf ++ cString chunk).take (newsize - 1)
  text ++ replicate (newsize + 1 - text.length) 0

theorem length_printJoined (newsize : Nat) (thebuf chunk : List UInt8) :
    (printJoined newsize thebuf chunk).length = newsize + 1 := by
  have short : ((cString thebuf ++ cString chunk).take (newsize - 1)).length ≤ newsize - 1 :=
    length_take_le _ _
  simp only [printJoined, length_append, length_replicate]
  omega

/-- The buffer is replaced by a larger one.  The offsets of the pointers are kept in
variables of type `int`; there is no result if a pointer is then outside of the buffer. -/
def grow (tp : TcpDisBuf) (chunk : List UInt8) : Option TcpDisBuf :=
  let newsize := growSize tp chunk.length
  let trailp := toCInt tp.trailp
  let leadp := toCInt tp.leadp
  let eod := toCInt tp.eod + chunk.length
  if inside : 0 ≤ trailp ∧ trailp ≤ leadp ∧ leadp ≤ newsize ∧ 0 ≤ eod ∧ eod ≤ newsize then
    some
      { bufsize := newsize
        thebuf := printJoined newsize tp.thebuf chunk
        trailp := trailp.toNat
        leadp := leadp.toNat
        eod := eod.toNat
        allocated := length_printJoined _ _ _
        trailp_le := by omega
        leadp_le := by omega
        eod_le := by omega }
  else none

/-- The buffer that a buffer becomes when it grows, if its pointers stay inside. -/
theorem grow_eq_some
    (inside : 0 ≤ toCInt tp.trailp ∧ toCInt tp.trailp ≤ toCInt tp.leadp ∧
      toCInt tp.leadp ≤ growSize tp chunk.length ∧ 0 ≤ toCInt tp.eod + chunk.length ∧
      toCInt tp.eod + chunk.length ≤ growSize tp chunk.length) :
    ∃ next, grow tp chunk = some next ∧ next.trailp = (toCInt tp.trailp).toNat ∧
      next.leadp = (toCInt tp.leadp).toNat ∧ next.eod = (toCInt tp.eod + chunk.length).toNat ∧
      next.thebuf = printJoined (growSize tp chunk.length) tp.thebuf chunk :=
  ⟨_, dif_pos inside, rfl, rfl, rfl, rfl⟩

/-- The chunk fits into the buffer: `max_read_len` is greater than its length. -/
def Fits (tp : TcpDisBuf) (chunk : List UInt8) : Prop :=
  (chunk.length : Int) < toCInt (tp.bufsize - tp.eod)
deriving Decidable

theorem Fits.lt (fits : Fits tp chunk) : tp.eod + chunk.length < tp.bufsize := by
  have below := fits.trans_le (toCInt_le _)
  omega

/-- The chunk is copied behind the data, and a zero behind it. -/
def append (tp : TcpDisBuf) (chunk : List UInt8) (fits : Fits tp chunk) : TcpDisBuf where
  bufsize := tp.bufsize
  thebuf := store tp.thebuf tp.eod (chunk ++ [0])
  trailp := tp.trailp
  leadp := tp.leadp
  eod := tp.eod + chunk.length
  allocated := by
    have room := fits.lt
    rw [length_store, tp.allocated]
    rw [length_append, length_singleton, tp.allocated]
    omega
  trailp_le := tp.trailp_le
  leadp_le := tp.leadp_le
  eod_le := Nat.le_of_lt fits.lt

/-- `tcp_read`: whether it returns `PBSE_NONE`, what it leaves in `*read_len`, and the
buffer. -/
def tcpRead (tp : TcpDisBuf) (readLen : Nat) : Delivery → Option (Bool × Nat × TcpDisBuf)
  | .refused => some (false, readLen, tp.tcpPackBuff)
  | .chunk bytes calloc =>
    if fits : Fits tp.tcpPackBuff bytes then
      some (true, bytes.length, append tp.tcpPackBuff bytes fits)
    else if calloc = false then
      some (false, bytes.length, tp.tcpPackBuff)
    else
      (grow tp.tcpPackBuff bytes).map fun grown => (true, bytes.length, grown)

/-! ## Handing out -/

/-- What `tcp_gets` returns: the bytes, or an error code. -/
abbrev Answer := Except Int (List UInt8)

/-- The bytes are copied, and the leading pointer is moved behind them. -/
def handOut (tp : TcpDisBuf) (ct : Nat) (enough : ct ≤ tp.eod - tp.leadp) :
    Answer × TcpDisBuf :=
  (.ok (window tp.thebuf tp.leadp (tp.leadp + ct)),
    { tp with
      leadp := tp.leadp + ct
      trailp_le := tp.trailp_le.trans (Nat.le_add_right _ _)
      leadp_le := by
        have lead := tp.leadp_le
        have inside := tp.eod_le
        omega })

/-- The error code of `tcp_gets`. -/
def errorCode (dataRead : Nat) : Int :=
  if dataRead = 0 then -2 else -1

/-- The loop of `tcp_gets`, with what the socket is going to deliver.  Behind the last
delivery the socket has nothing more. -/
def getsLoop (ct : Nat) :
    List Delivery → Nat → TcpDisBuf → Option (Answer × TcpDisBuf × List Delivery)
  | [], dataRead, tp =>
    if enough : ct ≤ tp.eod - tp.leadp then
      some ((handOut tp ct enough).1, (handOut tp ct enough).2, [])
    else
      some (.error (errorCode dataRead), tp.tcpPackBuff, [])
  | delivery :: incoming, dataRead, tp =>
    if enough : ct ≤ tp.eod - tp.leadp then
      some ((handOut tp ct enough).1, (handOut tp ct enough).2, delivery :: incoming)
    else
      match tcpRead tp dataRead delivery with
      | none => none
      | some (false, dataRead, tp) => some (.error (errorCode dataRead), tp, incoming)
      | some (true, dataRead, tp) => getsLoop ct incoming dataRead tp

/-- `tcp_gets`. -/
def tcpGets (ct : Nat) (incoming : List Delivery) (tp : TcpDisBuf) :
    Option (Answer × TcpDisBuf × List Delivery) :=
  getsLoop ct incoming 0 tp

/-- `tcp_getc`. -/
def tcpGetc (incoming : List Delivery) (tp : TcpDisBuf) :
    Option (Int × TcpDisBuf × List Delivery) :=
  match tcpGets 1 incoming tp with
  | none => none
  | some (.error code, tp, left) => some (code, tp, left)
  | some (.ok bytes, tp, left) => some (signedChar (bytes.headD 0), tp, left)

/-- The byte that the caller takes from a result of `tcp_getc`: -1 and -2 say that there is
none. -/
def charOf (result : Int) : List UInt8 :=
  if result = -1 ∨ result = -2 then [] else [UInt8.ofInt result]

/-! ## Runs -/

/-- The calls on a channel. -/
inductive ReadCall where
  | tcpGets (ct : Nat)
  | tcpGetc
  | tcpRcommit (commitFlag : Bool)
  | tcpRead

/-- The read side of a channel, and what has happened on it.  There is no buffer once a
pointer has left it. -/
structure ReadSide where
  readbuf : Option TcpDisBuf
  /-- What the socket is going to deliver. -/
  incoming : List Delivery
  /-- The bytes that were taken from the socket. -/
  received : List UInt8
  /-- The bytes that the caller was handed and has committed. -/
  committed : List UInt8
  /-- The bytes that the caller was handed since then. -/
  handed : List UInt8

/-- A channel that was set up. -/
def ReadSide.new (incoming : List Delivery) : ReadSide :=
  ⟨some .new, incoming, [], [], []⟩

/-- The bytes of the deliveries that were taken. -/
def takenBytes (incoming left : List Delivery) : List UInt8 :=
  ((incoming.take (incoming.length - left.length)).map Delivery.bytes).flatten

/-- A call of `tcp_gets` by the caller. -/
def getsStep (side : ReadSide) (tp : TcpDisBuf) (ct : Nat) : ReadSide :=
  match tcpGets ct side.incoming tp with
  | none => { side with readbuf := none }
  | some (answer, tp, left) =>
    { readbuf := some tp
      incoming := left
      received := side.received ++ takenBytes side.incoming left
      committed := side.committed
      handed := side.handed ++ answer.toOption.getD [] }

/-- A call of `tcp_getc` by the caller. -/
def getcStep (side : ReadSide) (tp : TcpDisBuf) : ReadSide :=
  match tcpGetc side.incoming tp with
  | none => { side with readbuf := none }
  | some (result, tp, left) =>
    { readbuf := some tp
      incoming := left
      received := side.received ++ takenBytes side.incoming left
      committed := side.committed
      handed := side.handed ++ charOf result }

/-- One call on the channel. -/
def readStep (side : ReadSide) (call : ReadCall) : ReadSide :=
  match side.readbuf with
  | none => side
  | some tp =>
    match call with
    | .tcpGets ct => getsStep side tp ct
    | .tcpGetc => getcStep side tp
    | .tcpRcommit true =>
      { side with
        readbuf := some (tp.commit true)
        committed := side.committed ++ side.handed
        handed := [] }
    | .tcpRcommit false => { side with readbuf := some (tp.commit false), handed := [] }
    | .tcpRead =>
      match side.incoming with
      | [] => { side with readbuf := some tp.tcpPackBuff }
      | delivery :: left =>
        { side with
          readbuf := (tcpRead tp 0 delivery).map fun answer => answer.2.2
          incoming := left
          received := side.received ++ delivery.bytes }

/-! ## What is asked of a growing buffer -/

/-- Nothing but zeros follows a zero. -/
def ZerosLast (bytes : List UInt8) : Prop :=
  ∀ byte ∈ bytes.dropWhile (· ≠ 0), byte = 0

/-- The data and the chunk are printed as they are, and all sizes are represented. -/
structure GrowsSafely (tp : TcpDisBuf) (chunk : List UInt8) : Prop where
  offset : tp.eod < 2 ^ 31
  room : tp.eod + chunk.length < growSize tp chunk.length
  zeros : ZerosLast (window tp.thebuf tp.trailp tp.eod ++ chunk)

/-- A call of `tcp_read` does not grow the buffer, or does so safely. -/
def ReadsSafely (tp : TcpDisBuf) : Delivery → Prop
  | .refused => True
  | .chunk bytes calloc =>
    ¬ Fits tp.tcpPackBuff bytes → calloc = true ∧ GrowsSafely tp.tcpPackBuff bytes

/-- All calls of `tcp_read` that a call of `tcp_gets` makes are safe. -/
def GetsSafely (ct : Nat) : List Delivery → TcpDisBuf → Prop
  | [], _ => True
  | delivery :: incoming, tp =>
    ct ≤ tp.eod - tp.leadp ∨
      ReadsSafely tp delivery ∧
        ∀ dataRead readLen next, tcpRead tp dataRead delivery = some (true, readLen, next) →
          GetsSafely ct incoming next

/-- The bytes that are in the buffer and are not handed out, and those that arrive. -/
def toCome (incoming : List Delivery) (tp : TcpDisBuf) : List UInt8 :=
  window tp.thebuf tp.leadp tp.eod ++ (incoming.map Delivery.bytes).flatten

/-- The next byte is none that `tcp_getc` returns like a failure. -/
def CharNext (bytes : List UInt8) : Prop :=
  ∀ byte ∈ bytes.head?, byte ≠ 0xff ∧ byte ≠ 0xfe

/-- A call on the channel is safe. -/
def Safe (side : ReadSide) (call : ReadCall) : Prop :=
  ∀ tp, side.readbuf = some tp →
    match call with
    | .tcpGets ct => GetsSafely ct side.incoming tp
    | .tcpGetc => GetsSafely 1 side.incoming tp ∧ CharNext (toCome side.incoming tp)
    | .tcpRcommit _ => True
    | .tcpRead =>
      match side.incoming with
      | [] => True
      | delivery :: _ => ReadsSafely tp delivery

/-! ## What the buffer stores -/

/-- Between the trailing and the leading pointer the buffer has what was handed out, from
there to the end of the data what was not, and a zero behind it. -/
structure Stores (tp : TcpDisBuf) (pending unread : List UInt8) : Prop where
  layout : ∃ before behind, tp.thebuf = before ++ ((pending ++ unread) ++ 0 :: behind) ∧
    before.length = tp.trailp
  leadp : tp.leadp = tp.trailp + pending.length
  eod : tp.eod = tp.leadp + unread.length

namespace Stores

variable {tp : TcpDisBuf} {pending unread : List UInt8}

theorem new : Stores .new [] [] where
  layout := ⟨[], replicate theBufSize 0, rfl, rfl⟩
  leadp := rfl
  eod := rfl

variable (stores : Stores tp pending unread)
include stores

theorem window_eq : window tp.thebuf tp.trailp tp.eod = pending ++ unread := by
  obtain ⟨before, behind, layout, length⟩ := stores.layout
  rw [layout]
  refine window_append length ?_
  rw [stores.eod, stores.leadp, length, length_append]
  omega

theorem unread_eq : window tp.thebuf tp.leadp tp.eod = unread := by
  obtain ⟨before, behind, layout, length⟩ := stores.layout
  rw [layout, append_assoc, ← append_assoc]
  refine window_append ?_ ?_
  · rw [length_append, length, stores.leadp]
  · rw [stores.eod, stores.leadp, length_append, length]

theorem pack : Stores tp.tcpPackBuff pending unread ∧ tp.tcpPackBuff.trailp = 0 := by
  unfold tcpPackBuff
  split
  · rename_i packed
    exact ⟨stores, packed⟩
  · refine ⟨⟨?_, ?_, ?_⟩, rfl⟩
    · refine ⟨[], (tp.thebuf.drop (0 + (pending ++ unread ++ [0]).length)), ?_, rfl⟩
      simp only [stores.window_eq, store, take_zero, nil_append]
      simp
    · simp [stores.leadp]
    · have lead := stores.leadp
      have eod := stores.eod
      dsimp only
      omega

theorem commit_true : Stores (tp.commit true) [] unread where
  layout := by
    obtain ⟨before, behind, layout, length⟩ := stores.layout
    refine ⟨before ++ pending, behind, ?_, ?_⟩
    · simp [commit, layout]
    · simp [commit, stores.leadp, length]
  leadp := rfl
  eod := stores.eod

theorem commit_false :
    Stores (tp.commit false) [] (pending ++ unread) where
  layout := stores.layout
  leadp := rfl
  eod := by
    rw [length_append, ← Nat.add_assoc]
    change tp.eod = tp.trailp + pending.length + unread.length
    rw [← stores.leadp]
    exact stores.eod

theorem append (fits : Fits tp chunk) :
    Stores (append tp chunk fits) pending (unread ++ chunk) where
  layout := by
    obtain ⟨before, behind, layout, length⟩ := stores.layout
    have room := fits.lt
    have offset : (before ++ (pending ++ unread)).length = tp.eod := by
      rw [stores.eod, stores.leadp, length_append, length_append, length]
      omega
    have enough : chunk.length + 1 ≤ (0 :: behind).length := by
      have total := tp.allocated
      rw [layout, ← append_assoc, length_append, offset] at total
      omega
    obtain ⟨front, back, split, frontLength⟩ := exists_append_of_le enough
    refine ⟨before, back, ?_, length⟩
    change store tp.thebuf tp.eod (chunk ++ [0]) = _
    rw [layout, ← append_assoc, split, store_append offset (by simp [frontLength])]
    simp
  leadp := stores.leadp
  eod := by
    rw [length_append, ← Nat.add_assoc]
    change tp.eod + chunk.length = tp.leadp + unread.length + chunk.length
    rw [stores.eod]

theorem unread_length : tp.eod - tp.leadp = unread.length := by
  rw [stores.eod, Nat.add_sub_cancel_left]

/-- The bytes that are handed out are the next ones. -/
theorem handOut {ct : Nat} (enough : ct ≤ tp.eod - tp.leadp) :
    (handOut tp ct enough).1 = .ok (unread.take ct) ∧
      Stores (handOut tp ct enough).2 (pending ++ unread.take ct) (unread.drop ct) := by
  obtain ⟨before, behind, layout, length⟩ := stores.layout
  have within : ct ≤ unread.length := stores.unread_length ▸ enough
  have taken : (unread.take ct).length = ct := length_take_of_le within
  have cut : pending ++ unread = pending ++ (unread.take ct ++ unread.drop ct) := by
    rw [take_append_drop]
  constructor
  · change Except.ok _ = Except.ok _
    congr 1
    have offset : (before ++ pending).length = tp.leadp := by
      rw [length_append, length, stores.leadp]
    rw [layout, cut, append_assoc, append_assoc, ← append_assoc before]
    exact window_append offset (by rw [offset, taken])
  · refine ⟨⟨before, behind, ?_, length⟩, ?_, ?_⟩
    · change tp.thebuf = _
      rw [layout, cut, append_assoc pending (unread.take ct)]
    · change tp.leadp + ct = tp.trailp + _
      rw [length_append, taken, stores.leadp, Nat.add_assoc]
    · change tp.eod = tp.leadp + ct + _
      rw [length_drop, stores.eod]
      omega

end Stores

variable {data chunk pending bytes : List UInt8}

/-! ## Growing -/

@[simp]
theorem cString_zero_cons (bytes : List UInt8) : cString (0 :: bytes) = [] :=
  rfl

theorem nonzero_of_not_mem (noZero : 0 ∉ data) : ∀ byte ∈ data, decide (byte ≠ 0) = true :=
  fun _ mem => decide_eq_true (ne_of_mem_of_not_mem mem noZero)

theorem cString_append_of_not_mem (noZero : 0 ∉ data) (more : List UInt8) :
    cString (data ++ more) = data ++ cString more :=
  takeWhile_append_of_pos (nonzero_of_not_mem noZero)

theorem cString_append_of_mem (zero : 0 ∈ data) (more : List UInt8) :
    cString (data ++ more) = cString data := by
  obtain ⟨front, back, rfl, noZero⟩ := eq_append_cons_of_mem zero
  rw [append_assoc, cString_append_of_not_mem noZero, cString_append_of_not_mem noZero,
    cons_append, cString_zero_cons, cString_zero_cons]

/-- Behind a zero there are only zeros. -/
theorem ZerosLast.of_mem (zeros : ZerosLast (data ++ chunk)) (zero : 0 ∈ data) :
    ∀ byte ∈ chunk, byte = 0 := by
  obtain ⟨front, back, rfl, noZero⟩ := eq_append_cons_of_mem zero
  intro byte mem
  apply zeros byte
  rw [append_assoc, dropWhile_append_of_pos (nonzero_of_not_mem noZero)]
  exact mem_cons_of_mem _ (mem_append_right _ mem)

/-- Bytes of which nothing but zeros follow a zero are a C string, filled with zeros. -/
theorem ZerosLast.fill (zeros : ZerosLast bytes) {size : Nat} (room : bytes.length ≤ size) :
    cString bytes ++ replicate (size - (cString bytes).length) 0 =
      bytes ++ replicate (size - bytes.length) 0 := by
  have split : cString bytes ++ bytes.dropWhile (· ≠ 0) = bytes := takeWhile_append_dropWhile
  have total := congrArg length split
  rw [length_append] at total
  have count : size - (cString bytes).length =
      (bytes.dropWhile (· ≠ 0)).length + (size - bytes.length) := by
    omega
  rw [count, ← replicate_append_replicate, ← append_assoc, ← eq_replicate_of_mem zeros, split]

/-- Data and chunk are printed as one string if nothing but zeros follows a zero. -/
theorem cString_joined {behind : List UInt8} (zeros : ZerosLast (data ++ chunk)) :
    cString (data ++ 0 :: behind) ++ cString chunk = cString (data ++ chunk) := by
  by_cases zero : 0 ∈ data
  · have none : cString chunk = [] := by
      cases chunk with
      | nil => rfl
      | cons byte chunk =>
        rw [zeros.of_mem zero byte mem_cons_self, cString_zero_cons]
    rw [cString_append_of_mem zero, cString_append_of_mem zero, none, append_nil]
  · rw [cString_append_of_not_mem zero, cString_append_of_not_mem zero, cString_zero_cons,
      append_nil]

/-- A buffer that grows safely has the chunk behind its data. -/
theorem Stores.grow {unread : List UInt8} (stores : Stores tp pending unread)
    (packed : tp.trailp = 0) (safe : GrowsSafely tp chunk) :
    ∃ next, grow tp chunk = some next ∧ Stores next pending (unread ++ chunk) := by
  have offset := safe.offset
  have room := safe.room
  have lead := stores.leadp
  have eod := stores.eod
  have trailInt : toCInt tp.trailp = tp.trailp := toCInt_of_lt (by omega)
  have leadInt : toCInt tp.leadp = tp.leadp := toCInt_of_lt (by omega)
  have eodInt : toCInt tp.eod = tp.eod := toCInt_of_lt offset
  have zeros := safe.zeros
  rw [stores.window_eq] at zeros
  obtain ⟨next, grown, trailEq, leadEq, eodEq, memory⟩ := @grow_eq_some chunk tp (by omega)
  refine ⟨next, grown, ?_, ?_, ?_⟩
  · refine ⟨[], replicate (growSize tp chunk.length - (tp.eod + chunk.length)) 0, ?_, ?_⟩
    · obtain ⟨before, behind, layout, length⟩ := stores.layout
      have none : before = [] := length_eq_zero_iff.mp (length.trans packed)
      subst none
      have total : (pending ++ unread ++ chunk).length = tp.eod + chunk.length := by
        rw [length_append, length_append]
        omega
      have shorter : (cString (pending ++ unread ++ chunk)).length ≤ tp.eod + chunk.length := by
        rw [← total]
        exact (takeWhile_sublist _).length_le
      rw [memory, layout, nil_append, printJoined, cString_joined zeros,
        take_of_length_le (by omega), zeros.fill (by omega), total,
        Nat.sub_add_comm (Nat.le_of_lt room), replicate_succ]
      simp
    · rw [trailEq, trailInt, packed]
      rfl
  · rw [leadEq, trailEq, leadInt, trailInt, Int.toNat_natCast, Int.toNat_natCast, lead]
  · rw [eodEq, leadEq, leadInt, eodInt, length_append]
    omega

/-! ## One call -/

section

variable {tp : TcpDisBuf} {pending unread : List UInt8}

/-- A safe call of `tcp_read` puts what was delivered behind the data. -/
theorem Stores.tcpRead (stores : Stores tp pending unread) {delivery : Delivery}
    (safe : ReadsSafely tp delivery) (dataRead : Nat) :
    ∃ success readLen next, tcpRead tp dataRead delivery = some (success, readLen, next) ∧
      Stores next pending (unread ++ delivery.bytes) ∧
      (delivery ≠ .refused → success = true) := by
  obtain ⟨packed, atFront⟩ := stores.pack
  cases delivery with
  | refused =>
    refine ⟨_, _, _, rfl, ?_, fun other => absurd rfl other⟩
    rwa [Delivery.bytes, append_nil]
  | chunk bytes calloc =>
    by_cases fits : Fits tp.tcpPackBuff bytes
    · exact ⟨_, _, _, dif_pos fits, packed.append fits, fun _ => rfl⟩
    · obtain ⟨rfl, growing⟩ := safe fits
      obtain ⟨next, grown, storesNext⟩ := packed.grow atFront growing
      refine ⟨true, bytes.length, next, ?_, storesNext, fun _ => rfl⟩
      rw [Buffered.tcpRead, dif_neg fits, if_neg (by decide), grown]
      rfl

/-- A safe call of `tcp_gets` hands out the next bytes of the data and of what was
delivered meanwhile, or nothing. -/
theorem Stores.getsLoop {ct : Nat} {incoming : List Delivery}
    (stores : Stores tp pending unread) (safe : GetsSafely ct incoming tp) (dataRead : Nat) :
    ∃ answer next left taken, getsLoop ct incoming dataRead tp = some (answer, next, left) ∧
      incoming = taken ++ left ∧
      ∃ later, unread ++ (taken.map Delivery.bytes).flatten = answer.toOption.getD [] ++ later ∧
        Stores next (pending ++ answer.toOption.getD []) later := by
  induction incoming generalizing tp unread dataRead with
  | nil =>
    by_cases enough : ct ≤ tp.eod - tp.leadp
    · obtain ⟨bytes, stored⟩ := stores.handOut enough
      refine ⟨_, _, [], [], dif_pos enough, rfl, unread.drop ct, ?_, ?_⟩
      · simp [bytes, Except.toOption]
      · simpa [bytes, Except.toOption] using stored
    · refine ⟨_, _, [], [], dif_neg enough, rfl, unread, ?_, ?_⟩
      · simp [Except.toOption]
      · simpa [Except.toOption] using stores.pack.1
  | cons delivery incoming ih =>
    by_cases enough : ct ≤ tp.eod - tp.leadp
    · obtain ⟨bytes, stored⟩ := stores.handOut enough
      refine ⟨_, _, _, [], dif_pos enough, rfl, unread.drop ct, ?_, ?_⟩
      · simp [bytes, Except.toOption]
      · simpa [bytes, Except.toOption] using stored
    · rcases safe with noRead | ⟨safeRead, onward⟩
      · exact absurd noRead enough
      · obtain ⟨success, readLen, next, read, storesNext, _⟩ := stores.tcpRead safeRead dataRead
        cases success with
        | false =>
          refine ⟨.error (errorCode readLen), next, incoming, [delivery], ?_, rfl,
            unread ++ delivery.bytes, ?_, ?_⟩
          · rw [Buffered.getsLoop, dif_neg enough, read]
          · simp [Except.toOption]
          · simpa [Except.toOption] using storesNext
        | true =>
          obtain ⟨answer, last, left, taken, gets, split, later, stream, storesLast⟩ :=
            ih storesNext (onward _ _ _ read) readLen
          refine ⟨answer, last, left, delivery :: taken, ?_, ?_, later, ?_, storesLast⟩
          · rw [Buffered.getsLoop, dif_neg enough, read]
            exact gets
          · rw [split, cons_append]
          · rw [← stream]
            simp

end

variable {ct : Nat} {tp : TcpDisBuf} {unread : List UInt8} {side : ReadSide} {left : List Delivery}

/-- As many bytes as were asked for, or one of two codes. -/
def Answers (ct : Nat) : Answer → Prop
  | .ok bytes => bytes.length = ct
  | .error code => code = -1 ∨ code = -2

theorem getsLoop_answers {incoming : List Delivery} {dataRead : Nat} {answer : Answer}
    {next : TcpDisBuf} (gets : getsLoop ct incoming dataRead tp = some (answer, next, left)) :
    Answers ct answer := by
  have handed (tp : TcpDisBuf) (enough : ct ≤ tp.eod - tp.leadp) :
      Answers ct (handOut tp ct enough).1 := by
    have inside := tp.eod_le
    have lead := tp.leadp_le
    have all := tp.allocated
    exact (length_window (by omega)).trans (Nat.add_sub_cancel_left _ _)
  have failed (dataRead : Nat) : Answers ct (.error (errorCode dataRead)) := by
    unfold errorCode
    split <;> simp [Answers]
  induction incoming generalizing tp dataRead with
  | nil =>
    unfold getsLoop at gets
    split at gets <;> cases gets
    · exact handed ..
    · exact failed dataRead
  | cons delivery incoming ih =>
    unfold getsLoop at gets
    split at gets
    · cases gets
      exact handed ..
    · split at gets
      · cases gets
      · cases gets
        exact failed _
      · exact ih gets

theorem charOf_signedChar {byte : UInt8} (char : byte ≠ 0xff ∧ byte ≠ 0xfe) :
    charOf (signedChar byte) = [byte] := by
  have all : ∀ n : Fin 256, UInt8.ofFin n ≠ 0xff ∧ UInt8.ofFin n ≠ 0xfe →
      charOf (signedChar (.ofFin n)) = [.ofFin n] := by
    decide +kernel
  exact all byte.toFin char

/-- As long as the next byte is not taken for a failure, `tcp_getc` hands it out like
`tcp_gets`. -/
theorem getcStep_eq (stores : Stores tp side.handed unread)
    (safe : GetsSafely 1 side.incoming tp) (char : CharNext (toCome side.incoming tp)) :
    getcStep side tp = getsStep side tp 1 := by
  obtain ⟨answer, next, left, taken, gets, split, later, stream, -⟩ := stores.getsLoop safe 0
  have answered := getsLoop_answers gets
  rw [toCome, stores.unread_eq, split, map_append, flatten_append, ← append_assoc, stream] at char
  rw [getcStep, getsStep, tcpGetc, tcpGets, gets]
  cases answer with
  | error code =>
    have failed : code = -1 ∨ code = -2 := answered
    dsimp only
    rw [charOf, if_pos failed]
    rfl
  | ok bytes =>
    obtain ⟨byte, rfl⟩ := length_eq_one_iff.mp answered
    dsimp only at char ⊢
    rw [headD_cons, charOf_signedChar (char byte rfl)]
    rfl

/-! ## The stream that the readers see -/

/-- A channel as the readers see it: what is in the buffer, followed by what is going to
arrive. -/
def Represents (tp : TcpDisBuf) (incoming : List Delivery) (chan : TcpChan) : Prop :=
  ∃ unread, Stores tp chan.pending unread ∧
    chan.rest = unread ++ (incoming.map Delivery.bytes).flatten

/-- A call of `tcp_gets` does what it does on the stream: it takes the bytes if there are enough,
and leaves both pointers otherwise. -/
def GetsFromStream (chan : TcpChan) (ct : Nat) :
    Option (Answer × TcpDisBuf × List Delivery) → Prop
  | none => False
  | some (.ok bytes, next, left) =>
    ∃ chan', Dis.tcpGets chan ct = .ok (bytes, chan') ∧ Represents next left chan'
  | some (.error _, next, left) => chan.rest.length < ct ∧ Represents next left chan

/-- The bytes are there before anything is read, whatever is going to arrive. -/
theorem getsLoop_of_enough {incoming : List Delivery} {chan : TcpChan}
    (stores : Stores tp chan.pending unread)
    (stream : chan.rest = unread ++ (incoming.map Delivery.bytes).flatten)
    (enough : ct ≤ tp.eod - tp.leadp) (dataRead : Nat) :
    GetsFromStream chan ct (getsLoop ct incoming dataRead tp) := by
  have within : ct ≤ unread.length := stores.unread_length ▸ enough
  have gets : getsLoop ct incoming dataRead tp =
      some ((handOut tp ct enough).1, (handOut tp ct enough).2, incoming) := by
    cases incoming <;> exact dif_pos enough
  rw [gets, (stores.handOut enough).1]
  refine ⟨⟨chan.pending ++ unread.take ct,
    unread.drop ct ++ (incoming.map Delivery.bytes).flatten, chan.ended⟩, ?_,
    unread.drop ct, (stores.handOut enough).2, rfl⟩
  refine tcpGets_eq_ok_iff_advances.mpr ⟨length_take_of_le within, ?_, rfl, rfl⟩
  rw [stream, ← append_assoc, take_append_drop]

theorem Represents.getsLoop {incoming : List Delivery} {chan : TcpChan}
    (represents : Represents tp incoming chan) (safe : GetsSafely ct incoming tp)
    (steady : ∀ delivery ∈ incoming, delivery ≠ .refused) (dataRead : Nat) :
    GetsFromStream chan ct (getsLoop ct incoming dataRead tp) := by
  obtain ⟨unread, stores, stream⟩ := represents
  induction incoming generalizing tp unread dataRead with
  | nil =>
    by_cases enough : ct ≤ tp.eod - tp.leadp
    · exact getsLoop_of_enough stores stream enough dataRead
    · rw [Buffered.getsLoop, dif_neg enough]
      refine ⟨?_, unread, stores.pack.1, stream⟩
      rw [stores.unread_length] at enough
      rw [stream]
      simpa using enough
  | cons delivery incoming ih =>
    by_cases enough : ct ≤ tp.eod - tp.leadp
    · exact getsLoop_of_enough stores stream enough dataRead
    · obtain ⟨safeRead, onward⟩ := safe.resolve_left enough
      obtain ⟨success, readLen, next, read, storesNext, succeeds⟩ :=
        stores.tcpRead safeRead dataRead
      obtain rfl := succeeds (steady delivery mem_cons_self)
      rw [Buffered.getsLoop, dif_neg enough, read]
      refine ih (onward _ _ _ read) (forall_mem_cons.1 steady).2 readLen _ storesNext ?_
      rw [stream]
      simp

/-- On a socket that fails only at its end, a safe call refines the one on the stream. -/
theorem tcpGets_refines_stream {incoming : List Delivery} {chan : TcpChan}
    (represents : Represents tp incoming chan) (safe : GetsSafely ct incoming tp)
    (steady : ∀ delivery ∈ incoming, delivery ≠ .refused) :
    GetsFromStream chan ct (tcpGets ct incoming tp) :=
  represents.getsLoop safe steady 0

theorem tcpGets_refines_stream_one :
    let chan : TcpChan := ⟨[], [1], .closed⟩
    Represents .new [.chunk [1] true] chan ∧
      GetsFromStream chan 1 (tcpGets 1 [.chunk [1] true] .new) := by
  have represents : Represents .new [.chunk [1] true] ⟨[], [1], .closed⟩ := ⟨[], Stores.new, rfl⟩
  refine ⟨represents, tcpGets_refines_stream represents (.inr ⟨?_, ?_⟩) (by simp)⟩
  · exact fun big => absurd (by decide) big
  · exact fun _ _ _ _ => trivial

/-- So does a call of `tcp_getc`, failures apart. -/
theorem tcpGetc_refines {incoming : List Delivery} {chan : TcpChan}
    (represents : Represents tp incoming chan) (safe : GetsSafely 1 incoming tp)
    (steady : ∀ delivery ∈ incoming, delivery ≠ .refused) :
    ∃ result next left, tcpGetc incoming tp = some (result, next, left) ∧
      Represents next left (Dis.tcpGetc chan).2 ∧
      if chan.rest = [] then result = -1 ∨ result = -2 else result = (Dis.tcpGetc chan).1 := by
  have refines := represents.getsLoop safe steady 0
  rw [tcpGetc, tcpGets]
  cases gets : getsLoop 1 incoming 0 tp with
  | none => rw [gets] at refines; exact refines.elim
  | some found =>
    obtain ⟨answer, next, left⟩ := found
    rw [gets] at refines
    cases answer with
    | error code =>
      obtain ⟨short, kept⟩ := refines
      have dry : chan.rest = [] := length_eq_zero_iff.mp (by omega)
      refine ⟨code, next, left, rfl, ?_, ?_⟩
      · rw [tcpGetc_nil dry]
        exact kept
      · rw [if_pos dry]
        exact getsLoop_answers gets
    | ok bytes =>
      obtain ⟨chan', taken, kept⟩ := refines
      obtain ⟨length, stream, pending, ended⟩ := tcpGets_eq_ok_iff_advances.mp taken
      obtain ⟨byte, rfl⟩ := length_eq_one_iff.mp length
      have starts : chan.rest = byte :: chan'.rest := stream
      refine ⟨signedChar byte, next, left, rfl, ?_, ?_⟩
      · have same : (Dis.tcpGetc chan).2 = chan' := by
          rw [Dis.tcpGetc, starts]
          cases chan'
          simp_all
        rw [same]
        exact kept
      · rw [if_neg (by simp [starts]), (tcpGetc_cons starts).1]

/-! ## Whole runs -/

/-- The next calls of `tcp_gets` hand out these bytes, without reading anything. -/
def Delivers (tp : TcpDisBuf) (bytes : List UInt8) : Prop :=
  ∀ ct, ct ≤ bytes.length → ∀ incoming, ∃ next,
    tcpGets ct incoming tp = some (.ok (bytes.take ct), next, incoming)

/-- What the caller has committed, what it was handed since then and what is still in the
buffer are together what was received.  What is in the buffer is handed out next, and
after going back so is what was not committed. -/
def ReadSide.Faithful (side : ReadSide) : Prop :=
  ∃ tp unread, side.readbuf = some tp ∧
    side.received = side.committed ++ (side.handed ++ unread) ∧
    Delivers tp unread ∧ Delivers (tp.commit false) (side.handed ++ unread)

/-- The buffer stores what the history of the channel says. -/
def ReadSide.Tracks (side : ReadSide) : Prop :=
  ∃ tp unread, side.readbuf = some tp ∧ Stores tp side.handed unread ∧
    side.received = side.committed ++ (side.handed ++ unread)

theorem Stores.delivers (stores : Stores tp pending unread) : Delivers tp unread := by
  intro ct within incoming
  have enough : ct ≤ tp.eod - tp.leadp := stores.unread_length.symm ▸ within
  have bytes := (stores.handOut enough).1
  refine ⟨(Buffered.handOut tp ct enough).2, ?_⟩
  rw [← bytes]
  cases incoming with
  | nil => exact dif_pos enough
  | cons delivery incoming => exact dif_pos enough

theorem ReadSide.Tracks.faithful (tracks : side.Tracks) : side.Faithful := by
  obtain ⟨tp, unread, buffer, stores, received⟩ := tracks
  exact ⟨tp, unread, buffer, received, stores.delivers, stores.commit_false.delivers⟩

theorem getsStep_eq {next : TcpDisBuf} {answer : Except Int (List UInt8)}
    (gets : tcpGets ct side.incoming tp = some (answer, next, left)) :
    getsStep side tp ct =
      { readbuf := some next
        incoming := left
        received := side.received ++ takenBytes side.incoming left
        committed := side.committed
        handed := side.handed ++ answer.toOption.getD [] } := by
  rw [getsStep, gets]

theorem tracks_getsStep (stores : Stores tp side.handed unread)
    (received : side.received = side.committed ++ (side.handed ++ unread))
    (safe : GetsSafely ct side.incoming tp) : (getsStep side tp ct).Tracks := by
  obtain ⟨answer, next, left, taken, gets, split, later, stream, storesNext⟩ :=
    stores.getsLoop safe 0
  rw [getsStep_eq gets]
  refine ⟨next, later, rfl, storesNext, ?_⟩
  rw [split, takenBytes, length_append, Nat.add_sub_cancel, take_left, received]
  simp only [append_assoc]
  rw [stream]

theorem tracks_readStep {call : ReadCall} (tracks : side.Tracks) (safe : Safe side call) :
    (readStep side call).Tracks := by
  obtain ⟨tp, unread, buffer, stores, received⟩ := tracks
  have safe := safe tp buffer
  cases call with
  | tcpGets ct =>
    rw [readStep, buffer]
    exact tracks_getsStep stores received safe
  | tcpGetc =>
    rw [readStep, buffer]
    dsimp only
    rw [getcStep_eq stores safe.1 safe.2]
    exact tracks_getsStep stores received safe.1
  | tcpRcommit commitFlag =>
    cases commitFlag with
    | true =>
      rw [readStep, buffer]
      refine ⟨_, unread, rfl, stores.commit_true, ?_⟩
      simp [received]
    | false =>
      rw [readStep, buffer]
      exact ⟨_, side.handed ++ unread, rfl, stores.commit_false, received⟩
  | tcpRead =>
    rw [readStep, buffer]
    cases incoming : side.incoming with
    | nil => exact ⟨_, unread, rfl, stores.pack.1, received⟩
    | cons delivery left =>
      rw [incoming] at safe
      obtain ⟨success, readLen, next, read, storesNext, _⟩ := stores.tcpRead safe 0
      refine ⟨next, unread ++ delivery.bytes, ?_, storesNext, ?_⟩
      · dsimp only
        rw [read]
        rfl
      · simp [received]

/-- In every run of safe calls, whatever the socket delivers, the caller gets what was
received. -/
theorem received_in_order (incoming : List Delivery) (calls : List ReadCall)
    (safe : Admissible readStep Safe (.new incoming) calls) :
    (run readStep (.new incoming) calls).Faithful := by
  have tracks : (run readStep (.new incoming) calls).Tracks := by
    refine invariant ReadSide.Tracks ?_ ?_ safe
    · exact ⟨.new, [], rfl, Stores.new, rfl⟩
    · intro side call
      exact tracks_readStep
  exact tracks.faithful

/-- A chunk without zeros that is too large for the buffer arrives, and its first byte is handed
out and handed back. -/
theorem received_in_order_large :
    ∃ chunk, ¬ Fits TcpDisBuf.new.tcpPackBuff chunk ∧
      (run readStep (.new [.chunk chunk true]) [.tcpGetc, .tcpRcommit false]).Faithful := by
  obtain ⟨chunk, length, first, noZero⟩ :
      ∃ chunk : List UInt8, chunk.length = 262145 ∧ chunk.head? = some 1 ∧ 0 ∉ chunk := by
    refine ⟨1 :: replicate 262144 1, ?_, rfl, ?_⟩
    · rw [length_cons, length_replicate]
    · rintro (_ | ⟨_, mem⟩)
      exact absurd (eq_of_mem_replicate mem) (by decide)
  have big : ¬ Fits TcpDisBuf.new.tcpPackBuff chunk := by
    rw [Fits, length]
    decide
  have grows : GrowsSafely TcpDisBuf.new.tcpPackBuff chunk := by
    refine ⟨by decide, ?_, ?_⟩
    · rw [length]
      decide
    · have none : chunk.dropWhile (· ≠ 0) = [] := by
        rw [← append_nil chunk, dropWhile_append_of_pos (nonzero_of_not_mem noZero)]
        rfl
      intro byte mem
      change byte ∈ chunk.dropWhile (· ≠ 0) at mem
      rw [none] at mem
      cases mem
  refine ⟨chunk, big, received_in_order _ _ ⟨?_, fun _ _ => trivial, trivial⟩⟩
  rintro tp ⟨⟩
  refine ⟨.inr ⟨fun _ => ⟨rfl, grows⟩, fun _ _ _ _ => trivial⟩, fun byte next => ?_⟩
  have all : toCome (ReadSide.new [.chunk chunk true]).incoming .new = chunk := append_nil chunk
  rw [all, first] at next
  cases next
  decide

section

variable {chunk : List UInt8} (length : chunk.length = 262145) (cut : cString chunk = [])

include length cut

/-- Neither the empty buffer nor a large chunk that starts with a zero has characters in front of
a zero. -/
theorem grow_largeChunk :
    ∃ next, grow .new chunk = some next ∧ next.leadp = 0 ∧ next.eod = 262145 ∧
      next.thebuf = replicate 1048579 0 := by
  have size : growSize .new chunk.length = 1048578 := by
    rw [length]
    rfl
  have eod : toCInt new.eod + chunk.length = 262145 := by
    have start : toCInt new.eod = 0 := rfl
    omega
  obtain ⟨next, grown, _, lead, eodEq, memory⟩ := @grow_eq_some chunk .new (by
    rw [size, eod]
    decide)
  refine ⟨next, grown, ?_, ?_, ?_⟩
  · rw [lead]
    rfl
  · rw [eodEq, eod]
    rfl
  · have empty : cString new.thebuf = [] := rfl
    rw [memory, size, printJoined, empty, cut, nil_append, take_nil, nil_append, length_nil]

/-- The first two bytes of such a chunk are handed out as zeros. -/
theorem tcpGets_largeChunk :
    ∃ tp, tcpGets 2 [.chunk chunk true] .new = some (.ok [0, 0], tp, []) := by
  obtain ⟨next, grown, lead, eod, zeros⟩ := grow_largeChunk length cut
  have big : ¬ Fits new.tcpPackBuff chunk := by
    rw [Fits, length]
    decide
  have read : tcpRead .new 0 (.chunk chunk true) = some (true, chunk.length, next) := by
    rw [tcpRead, dif_neg big, if_neg (by decide)]
    change Option.map _ (grow .new chunk) = _
    rw [grown]
    rfl
  have enough : 2 ≤ next.eod - next.leadp := by
    rw [eod, lead]
    decide
  have empty : ¬ 2 ≤ new.eod - new.leadp := by decide
  have bytes : (handOut next 2 enough).1 = .ok [0, 0] := by
    change Except.ok (window next.thebuf next.leadp (next.leadp + 2)) = _
    rw [lead, zeros]
    rfl
  refine ⟨(handOut next 2 enough).2, ?_⟩
  rw [tcpGets, getsLoop, dif_neg empty, read]
  dsimp only
  rw [getsLoop, dif_pos enough, bytes]

end

/-- Bytes that are read and committed have been received in front of all others. -/
theorem ReadSide.Faithful.prefix_received {next : TcpDisBuf} (buffer : side.readbuf = some tp)
    (gets : tcpGets ct side.incoming tp = some (.ok bytes, next, left))
    (faithful : (run readStep side [.tcpGets ct, .tcpRcommit true]).Faithful) :
    ∃ unread, side.received ++ takenBytes side.incoming left =
      side.committed ++ (side.handed ++ bytes) ++ unread := by
  obtain ⟨_, unread, _, received, _⟩ := faithful
  refine ⟨unread, ?_⟩
  have first : readStep side (.tcpGets ct) = getsStep side tp ct := by
    rw [readStep, buffer]
  rw [run, foldl_cons, first, getsStep_eq gets] at received
  exact received

/-- The bytes behind a zero in a large chunk are handed out as zeros. -/
theorem bytes_behind_zero_lost :
    ¬ ∀ (incoming : List Delivery) (calls : List ReadCall),
      (run readStep (.new incoming) calls).Faithful := by
  intro faithful
  obtain ⟨chunk, length, cut, second⟩ :
      ∃ chunk : List UInt8, chunk.length = 262145 ∧ cString chunk = [] ∧ chunk[1]? = some 1 := by
    refine ⟨0 :: 1 :: replicate 262143 1, ?_, rfl, rfl⟩
    rw [length_cons, length_cons, length_replicate]
  obtain ⟨_, gets⟩ := tcpGets_largeChunk length cut
  have buffer : (ReadSide.new [.chunk chunk true]).readbuf = some .new := rfl
  obtain ⟨unread, received⟩ := ReadSide.Faithful.prefix_received buffer gets
    (faithful [.chunk chunk true] [.tcpGets 2, .tcpRcommit true])
  have taken : takenBytes [.chunk chunk true] [] = chunk := append_nil chunk
  have stream : chunk = [0, 0] ++ unread := by
    rw [← taken]
    exact received
  rw [stream] at second
  cases second

end Torque.Dis.Buffered
