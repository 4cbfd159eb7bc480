import Torque.Dis.Buffer
import Torque.Transition.Run

/-!
# The write buffer

`tcp_puts` stages bytes in the write buffer of a channel, `tcp_wcommit` commits them or
takes them back, and `DIS_tcp_wflush` sends what is committed, in as many pieces as the
socket asks for.

What is sent is what was committed, as long as the sizes are those of an `int`: `tcp_puts`
keeps the offsets of its pointers in variables of that type while it replaces the buffer,
and `DIS_tcp_wflush` keeps in one the length of the piece that was written.  Allocations
succeed, and a write that is asked to write something writes a part of it.
-/

namespace Torque.Dis.Buffered

open Torque.Structure Torque.Transition List

/-! ## Staging -/

/-- The offset of a pointer after it was kept, negated, in an `int`. -/
def keptOffset (offset : Nat) : Int :=
  -(BitVec.ofInt 32 (-(offset : Int))).toInt

section

variable (tp : TcpDisBuf) (ct : Nat)

/-- `newbufsize`. -/
def newBufSize : Nat :=
  tp.bufsize + theBufSize + ct * 2

/-- The memory of the larger buffer: the old one without its last byte, and zeros. -/
def moved : List UInt8 :=
  tp.thebuf.take tp.bufsize ++ replicate (newBufSize tp ct + 1 - tp.bufsize) 0

theorem length_moved : (moved tp ct).length = newBufSize tp ct + 1 := by
  have old : (tp.thebuf.take tp.bufsize).length = tp.bufsize :=
    length_take_of_le (by rw [tp.allocated]; omega)
  rw [moved, length_append, old, length_replicate, newBufSize]
  omega

/-- There is room behind the leading pointer. -/
def HasRoom : Prop :=
  ct ≤ tp.bufsize - tp.leadp
deriving Decidable

theorem HasRoom.le {tp : TcpDisBuf} {ct : Nat} (room : HasRoom tp ct) :
    tp.leadp + ct ≤ tp.bufsize := by
  have inside := tp.leadp_le
  unfold HasRoom at room
  omega

variable (str : List UInt8)

/-- The bytes are copied into the room that there is. -/
def stage (room : HasRoom tp str.length) : TcpDisBuf where
  bufsize := tp.bufsize
  thebuf := store tp.thebuf tp.leadp str
  trailp := tp.trailp
  leadp := tp.leadp + str.length
  eod := tp.eod
  allocated := by
    have inside := room.le
    rw [length_store, tp.allocated]
    rw [tp.allocated]
    omega
  trailp_le := tp.trailp_le.trans (Nat.le_add_right _ _)
  leadp_le := room.le
  eod_le := tp.eod_le

/-- The pointers are inside the larger buffer, in their order, with room for the bytes. -/
def KeepsPointers : Prop :=
  0 ≤ keptOffset tp.trailp ∧ keptOffset tp.trailp ≤ keptOffset tp.leadp ∧
    keptOffset tp.leadp + ct ≤ newBufSize tp ct
deriving Decidable

/-- The buffer is replaced by a larger one, and the bytes are copied into that. -/
def stageGrown (keeps : KeepsPointers tp str.length) : TcpDisBuf where
  bufsize := newBufSize tp str.length
  thebuf := store (moved tp str.length) (keptOffset tp.leadp).toNat str
  trailp := (keptOffset tp.trailp).toNat
  leadp := (keptOffset tp.leadp).toNat + str.length
  eod := newBufSize tp str.length
  allocated := by
    have inside := keeps.2.2
    have nonneg := keeps.1.trans keeps.2.1
    rw [length_store, length_moved]
    rw [length_moved]
    omega
  trailp_le := by
    have ordered := keeps.2.1
    omega
  leadp_le := by
    have inside := keeps.2.2
    have nonneg := keeps.1.trans keeps.2.1
    omega
  eod_le := Nat.le_refl _

/-- `tcp_puts`: whether the bytes were placed, and the buffer.  There is no result if a
pointer has left its place. -/
def tcpPuts : Option (Bool × TcpDisBuf) :=
  if tp.bufsize = 0 then some (false, tp)
  else if room : HasRoom tp str.length then some (true, stage tp str room)
  else if keeps : KeepsPointers tp str.length then some (true, stageGrown tp str keeps)
  else none

end

/-! ## Flushing -/

/-- How much `write_ac_socket` writes of so many bytes: what it is asked for by the socket,
but something and not more than there is. -/
def pieceLength (piece count : Nat) : Nat :=
  min count (max 1 piece)

/-- The loop of `DIS_tcp_wflush`: the bytes that are written, with what the socket takes in
each call.  Behind the last piece it takes all that is left.  A piece that is no `int` is
taken for another length; there is no result then. -/
def flushLoop : List Nat → List UInt8 → Option (List UInt8)
  | [], data => if data.length < 2 ^ 31 then some data else none
  | piece :: pieces, data =>
    let written := pieceLength piece data.length
    if written < 2 ^ 31 then
      if written = data.length then some data
      else (flushLoop pieces (data.drop written)).map (data.take written ++ ·)
    else none

/-- `DIS_tcp_wflush`: the bytes that are sent, and the buffer without them. -/
def disTcpWflush (pieces : List Nat) (tp : TcpDisBuf) : Option (List UInt8 × TcpDisBuf) :=
  (flushLoop pieces (window tp.thebuf 0 tp.trailp)).map fun sent =>
    (sent, TcpDisBuf.tcpPackBuff { tp with eod := tp.leadp, eod_le := tp.leadp_le })

/-! ## Runs -/

/-- The calls on a channel. -/
inductive WriteCall where
  | tcpPuts (str : List UInt8)
  | tcpWcommit (commitFlag : Bool)
  | disTcpWflush (pieces : List Nat)

/-- The write side of a channel, and what has happened on it.  There is no buffer once a
pointer has left its place. -/
structure WriteSide where
  writebuf : Option TcpDisBuf
  /-- The bytes that were put on the socket. -/
  sent : List UInt8
  /-- The bytes of the puts that were committed. -/
  committed : List UInt8
  /-- The bytes of the puts since then. -/
  staged : List UInt8
  /-- What was committed when the channel was flushed last. -/
  flushed : List UInt8

/-- A channel that was set up. -/
def WriteSide.new : WriteSide :=
  ⟨some .new, [], [], [], []⟩

/-- One call on the channel. -/
def writeStep (side : WriteSide) (call : WriteCall) : WriteSide :=
  match side.writebuf with
  | none => side
  | some tp =>
    match call with
    | .tcpPuts str =>
      match tcpPuts tp str with
      | none => { side with writebuf := none }
      | some (false, tp) => { side with writebuf := some tp }
      | some (true, tp) =>
        { side with writebuf := some tp, staged := side.staged ++ str }
    | .tcpWcommit true =>
      { side with
        writebuf := some (tp.commit true)
        committed := side.committed ++ side.staged
        staged := [] }
    | .tcpWcommit false => { side with writebuf := some (tp.commit false), staged := [] }
    | .disTcpWflush pieces =>
      match disTcpWflush pieces tp with
      | none => { side with writebuf := none }
      | some (sent, tp) =>
        { side with
          writebuf := some tp
          sent := side.sent ++ sent
          flushed := side.committed }

/-! ## Sizes -/

/-- All pieces that are written of so many bytes are represented. -/
def PiecesFit : List Nat → Nat → Prop
  | [], count => count < 2 ^ 31
  | piece :: pieces, count =>
    pieceLength piece count < 2 ^ 31 ∧ PiecesFit pieces (count - pieceLength piece count)

/-- The offset of the leading pointer is represented when the buffer has to grow, and so is
each piece when it is flushed. -/
def SizesFit (side : WriteSide) (call : WriteCall) : Prop :=
  ∀ tp, side.writebuf = some tp →
    match call with
    | .tcpPuts str => ¬ HasRoom tp str.length → tp.leadp ≤ 2 ^ 31
    | .tcpWcommit _ => True
    | .disTcpWflush pieces => PiecesFit pieces tp.trailp

/-! ## What the buffer holds -/

/-- Before the trailing pointer the buffer has what is to be sent, from there to the
leading pointer what is staged. -/
structure Holds (tp : TcpDisBuf) (outgoing staged : List UInt8) : Prop where
  size : tp.bufsize ≠ 0
  layout : ∃ behind, tp.thebuf = outgoing ++ (staged ++ behind)
  trailp : tp.trailp = outgoing.length
  leadp : tp.leadp = tp.trailp + staged.length

theorem keptOffset_of_le {offset : Nat} (small : offset ≤ 2 ^ 31) : keptOffset offset = offset := by
  rw [keptOffset, BitVec.toInt_ofInt, Int.bmod_eq_of_le (by omega) (by omega)]
  omega

theorem flushLoop_eq {pieces : List Nat} {data : List UInt8}
    (fit : PiecesFit pieces data.length) : flushLoop pieces data = some data := by
  induction pieces generalizing data with
  | nil => exact if_pos fit
  | cons piece pieces ih =>
    obtain ⟨small, onward⟩ := fit
    rw [flushLoop]
    simp only [if_pos small]
    split
    · rfl
    · rw [ih (by rwa [length_drop]), Option.map_some, take_append_drop]

namespace Holds

variable {tp : TcpDisBuf} {outgoing staged : List UInt8}

theorem new : Holds .new [] [] :=
  ⟨by decide, ⟨_, rfl⟩, rfl, rfl⟩

variable (holds : Holds tp outgoing staged)
include holds

theorem length_le : (outgoing ++ staged).length = tp.leadp := by
  rw [length_append, holds.leadp, holds.trailp]

variable {str : List UInt8}

theorem stage (room : HasRoom tp str.length) :
    Holds (stage tp str room) outgoing (staged ++ str) where
  size := holds.size
  layout := by
    obtain ⟨behind, layout⟩ := holds.layout
    have offset := holds.length_le
    have enough : str.length ≤ behind.length := by
      have total := tp.allocated
      have inside := room.le
      rw [layout, ← append_assoc, length_append, offset] at total
      omega
    obtain ⟨front, back, split, frontLength⟩ := exists_append_of_le enough
    refine ⟨back, ?_⟩
    change store tp.thebuf tp.leadp str = _
    rw [layout, ← append_assoc, split, store_append offset frontLength.symm]
    simp
  trailp := holds.trailp
  leadp := by
    rw [length_append, ← Nat.add_assoc]
    change tp.leadp + str.length = tp.trailp + staged.length + str.length
    rw [← holds.leadp]

theorem stageGrown (keeps : KeepsPointers tp str.length)
    (small : tp.leadp ≤ 2 ^ 31) : Holds (stageGrown tp str keeps) outgoing (staged ++ str) := by
  have offset := holds.length_le
  have trail : keptOffset tp.trailp = tp.trailp := keptOffset_of_le (tp.trailp_le.trans small)
  have lead : keptOffset tp.leadp = tp.leadp := keptOffset_of_le small
  refine ⟨?_, ?_, ?_, ?_⟩
  · change newBufSize tp str.length ≠ 0
    have size := holds.size
    rw [newBufSize]
    omega
  · obtain ⟨behind, layout⟩ := holds.layout
    have inside := tp.leadp_le
    have front : ∃ rest, tp.thebuf.take tp.bufsize = outgoing ++ staged ++ rest := by
      refine ⟨behind.take (tp.bufsize - tp.leadp), ?_⟩
      rw [layout, ← append_assoc, take_append, offset,
        take_of_length_le (by rw [offset]; exact inside)]
    obtain ⟨rest, front⟩ := front
    have memory : moved tp str.length = outgoing ++ staged ++ (rest ++
        replicate (newBufSize tp str.length + 1 - tp.bufsize) 0) := by
      rw [moved, front, append_assoc]
    have enough : str.length ≤ (rest ++
        replicate (newBufSize tp str.length + 1 - tp.bufsize) 0).length := by
      rw [length_append, length_replicate, newBufSize]
      omega
    obtain ⟨place, back, split, placeLength⟩ := exists_append_of_le enough
    refine ⟨back, ?_⟩
    change store (moved tp str.length) (keptOffset tp.leadp).toNat str = _
    rw [lead, Int.toNat_natCast, memory, split, store_append offset placeLength.symm]
    simp
  · change (keptOffset tp.trailp).toNat = _
    rw [trail, Int.toNat_natCast, holds.trailp]
  · change (keptOffset tp.leadp).toNat + str.length = (keptOffset tp.trailp).toNat + _
    rw [trail, lead, Int.toNat_natCast, Int.toNat_natCast, length_append, ← Nat.add_assoc,
      ← holds.leadp]

/-- A put whose sizes fit is staged, whether the buffer has to grow or not. -/
theorem tcpPuts (fits : ¬ HasRoom tp str.length → tp.leadp ≤ 2 ^ 31) :
    ∃ next, tcpPuts tp str = some (true, next) ∧ Holds next outgoing (staged ++ str) := by
  by_cases room : HasRoom tp str.length
  · refine ⟨_, ?_, holds.stage room⟩
    rw [Buffered.tcpPuts, if_neg holds.size, dif_pos room]
  · have small := fits room
    have keeps : KeepsPointers tp str.length := by
      have ordered := tp.trailp_le
      have inside := tp.leadp_le
      rw [KeepsPointers, keptOffset_of_le small, keptOffset_of_le (ordered.trans small), newBufSize]
      omega
    refine ⟨_, ?_, holds.stageGrown keeps small⟩
    rw [Buffered.tcpPuts, if_neg holds.size, dif_neg room, dif_pos keeps]

theorem commit_true :
    Holds (tp.commit true) (outgoing ++ staged) [] where
  size := holds.size
  layout := by
    obtain ⟨behind, layout⟩ := holds.layout
    exact ⟨behind, by simp [TcpDisBuf.commit, layout]⟩
  trailp := holds.length_le.symm
  leadp := rfl

theorem commit_false :
    Holds (tp.commit false) outgoing [] where
  size := holds.size
  layout := by
    obtain ⟨behind, layout⟩ := holds.layout
    exact ⟨staged ++ behind, layout⟩
  trailp := holds.trailp
  leadp := rfl

/-- A flush whose sizes fit sends what is to be sent, and keeps what is staged. -/
theorem disTcpWflush {pieces : List Nat} (fit : PiecesFit pieces tp.trailp) :
    ∃ next, disTcpWflush pieces tp = some (outgoing, next) ∧ Holds next [] staged := by
  obtain ⟨behind, layout⟩ := holds.layout
  have data : window tp.thebuf 0 tp.trailp = outgoing := by
    rw [layout, ← nil_append (outgoing ++ _)]
    exact window_append rfl (by rw [holds.trailp, length_nil, Nat.zero_add])
  rw [holds.trailp] at fit
  refine ⟨TcpDisBuf.tcpPackBuff { tp with eod := tp.leadp, eod_le := tp.leadp_le }, ?_, ?_⟩
  · rw [Buffered.disTcpWflush, data, flushLoop_eq fit]
    rfl
  · unfold TcpDisBuf.tcpPackBuff
    split
    · rename_i none
      have empty : outgoing = [] := length_eq_zero_iff.mp (holds.trailp.symm.trans none)
      subst empty
      exact ⟨holds.size, ⟨behind, layout⟩, none, holds.leadp⟩
    · have kept : window tp.thebuf tp.trailp tp.leadp = staged := by
        rw [layout]
        exact window_append holds.trailp.symm (by rw [holds.leadp, holds.trailp])
      refine ⟨holds.size, ⟨[0] ++ tp.thebuf.drop (0 + (staged ++ [0]).length), ?_⟩, rfl, ?_⟩
      · simp only [kept, store, take_zero, nil_append, append_assoc]
      · change tp.leadp - tp.trailp = 0 + staged.length
        rw [holds.leadp]
        omega

end Holds

/-! ## Whole runs -/

/-- The channel still has its buffer, and what was put on the socket is what was committed
when it was flushed last. -/
def WriteSide.Faithful (side : WriteSide) : Prop :=
  side.writebuf.isSome ∧ side.sent = side.flushed

/-- The buffer holds what the history of the channel says. -/
def WriteSide.Tracks (side : WriteSide) : Prop :=
  ∃ tp outgoing, side.writebuf = some tp ∧ Holds tp outgoing side.staged ∧
    side.committed = side.sent ++ outgoing ∧ side.sent = side.flushed

theorem tracks_writeStep {side : WriteSide} {call : WriteCall} (tracks : side.Tracks)
    (fits : SizesFit side call) : (writeStep side call).Tracks := by
  obtain ⟨tp, outgoing, buffer, holds, committed, sent⟩ := tracks
  have fits := fits tp buffer
  cases call with
  | tcpPuts str =>
    obtain ⟨next, puts, holdsNext⟩ := holds.tcpPuts fits
    rw [writeStep, buffer]
    simp only [puts]
    exact ⟨next, outgoing, rfl, holdsNext, committed, sent⟩
  | tcpWcommit commitFlag =>
    cases commitFlag with
    | true =>
      rw [writeStep, buffer]
      refine ⟨_, outgoing ++ side.staged, rfl, holds.commit_true, ?_, sent⟩
      simp [committed]
    | false =>
      rw [writeStep, buffer]
      exact ⟨_, outgoing, rfl, holds.commit_false, committed, sent⟩
  | disTcpWflush pieces =>
    obtain ⟨next, flush, holdsNext⟩ := holds.disTcpWflush fits
    rw [writeStep, buffer]
    simp only [flush]
    refine ⟨next, [], rfl, holdsNext, ?_, committed.symm⟩
    simp [committed]

/-- In every run of calls whose sizes fit, the bytes that are put on the socket are those
that were committed, each once and in order. -/
theorem committed_sent_once (calls : List WriteCall)
    (fits : Admissible writeStep SizesFit .new calls) :
    (run writeStep .new calls).Faithful := by
  have tracks : (run writeStep .new calls).Tracks := by
    refine invariant WriteSide.Tracks ?_ ?_ fits
    · exact ⟨.new, [], rfl, Holds.new, rfl, rfl⟩
    · intro side call
      exact tracks_writeStep
  obtain ⟨tp, outgoing, buffer, _, _, sent⟩ := tracks
  exact ⟨by rw [buffer]; rfl, sent⟩

/-- Two puts of which the second is taken back, and a flush of the first in two pieces. -/
def putAndFlush : List WriteCall :=
  [.tcpPuts [1, 2, 3], .tcpWcommit true, .tcpPuts [4], .tcpWcommit false, .disTcpWflush [2]]

theorem committed_sent_once_three :
    (run writeStep .new putAndFlush).sent = [1, 2, 3] ∧
      (run writeStep .new putAndFlush).Faithful := by
  refine ⟨rfl, committed_sent_once putAndFlush ⟨?_, ?_, ?_, ?_, ?_, trivial⟩⟩
  · rintro tp ⟨⟩ full
    exact absurd (by decide) full
  · intro tp buffer
    exact trivial
  · rintro tp ⟨⟩ full
    exact absurd (by decide) full
  · intro tp buffer
    exact trivial
  · rintro tp ⟨⟩
    exact ⟨by decide, show _ < 2 ^ 31 by decide⟩

/-- A put that leaves the leading pointer more than 2 GiB behind the start of the buffer. -/
theorem tcpPuts_huge {str : List UInt8} (length : str.length = 2147483649) :
    ∃ next, tcpPuts .new str = some (true, next) ∧ next.bufsize = 4295491586 ∧
      next.trailp = 0 ∧ next.leadp = 2147483649 := by
  have size : TcpDisBuf.new.bufsize ≠ 0 := by decide
  have full : ¬ HasRoom .new str.length := by
    rw [HasRoom, length]
    decide
  have keeps : KeepsPointers .new str.length := by
    rw [KeepsPointers, length]
    decide
  refine ⟨stageGrown .new str keeps, ?_, ?_, rfl, ?_⟩
  · rw [tcpPuts, if_neg size, dif_neg full, dif_pos keeps]
  · change newBufSize .new str.length = _
    rw [length]
    rfl
  · change (keptOffset TcpDisBuf.new.leadp).toNat + str.length = _
    rw [length]
    rfl

/-- The offset of a pointer that far away does not come back from an `int`. -/
theorem pointer_lost_in_huge_buffer :
    ¬ ∀ calls : List WriteCall, (run writeStep .new calls).Faithful := by
  intro faithful
  obtain ⟨first, firstLength⟩ : ∃ str : List UInt8, str.length = 2147483649 :=
    ⟨replicate _ 0, length_replicate⟩
  obtain ⟨second, secondLength⟩ : ∃ str : List UInt8, str.length = 4294967296 :=
    ⟨replicate _ 0, length_replicate⟩
  obtain ⟨next, puts, bufsize, trailp, leadp⟩ := tcpPuts_huge firstLength
  have lost : tcpPuts next second = none := by
    have size : next.bufsize ≠ 0 := by
      rw [bufsize]
      decide
    have full : ¬ HasRoom next second.length := by
      rw [HasRoom, secondLength, bufsize, leadp]
      decide
    have left : ¬ KeepsPointers next second.length := by
      rw [KeepsPointers, trailp, leadp]
      intro keeps
      exact absurd keeps.2.1 (by decide)
    rw [tcpPuts, if_neg size, dif_neg full, dif_neg left]
  have present := (faithful [.tcpPuts first, .tcpPuts second]).1
  simp only [run, foldl_cons, foldl_nil, writeStep, WriteSide.new, puts, lost] at present
  cases present

end Torque.Dis.Buffered
