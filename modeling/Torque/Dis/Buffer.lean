import Torque.Dis.Channel
import Torque.Structure.Memory

/-!
# The buffers of a DIS channel

A `tcp_chan` has a buffer for reading and one for writing.  Each is a block of memory
with three pointers into it, which are offsets here, and is packed by moving what is not
committed to its front.
-/

namespace Torque.Dis

open Torque.Structure

/-- `THE_BUF_SIZE`. -/
def theBufSize : Nat := 262144

/-- A `tcpdisbuf`.  One byte more is allocated than the size says; the pointers are inside
the buffer, and what is committed ends before what is not. -/
@[ext]
structure TcpDisBuf where
  bufsize : Nat
  thebuf : List UInt8
  trailp : Nat
  leadp : Nat
  eod : Nat
  allocated : thebuf.length = bufsize + 1
  trailp_le : trailp ≤ leadp
  leadp_le : leadp ≤ bufsize
  eod_le : eod ≤ bufsize

namespace TcpDisBuf

/-- The buffer that `DIS_tcp_setup` makes. -/
def new : TcpDisBuf where
  bufsize := theBufSize
  thebuf := List.replicate (theBufSize + 1) 0
  trailp := 0
  leadp := 0
  eod := 0
  allocated := List.length_replicate
  trailp_le := Nat.le_refl 0
  leadp_le := Nat.zero_le _
  eod_le := Nat.zero_le _

/-- `tcp_pack_buff`.  The end of the data is not before the trailing pointer where it is
called. -/
def tcpPackBuff (tp : TcpDisBuf) : TcpDisBuf :=
  if tp.trailp = 0 then tp
  else
    { bufsize := tp.bufsize
      thebuf := store tp.thebuf 0 (window tp.thebuf tp.trailp tp.eod ++ [0])
      trailp := 0
      leadp := tp.leadp - tp.trailp
      eod := tp.eod - tp.trailp
      allocated := by
        have inside := tp.eod_le
        have length : (window tp.thebuf tp.trailp tp.eod).length = tp.eod - tp.trailp :=
          length_window (by rw [tp.allocated]; omega)
        rw [length_store, tp.allocated]
        rw [List.length_append, length, List.length_singleton, tp.allocated]
        omega
      trailp_le := Nat.zero_le _
      leadp_le := (Nat.sub_le _ _).trans tp.leadp_le
      eod_le := (Nat.sub_le _ _).trans tp.eod_le }

/-- `tcp_rcommit` and `tcp_wcommit`, which do the same to their buffers. -/
def commit (tp : TcpDisBuf) (commitFlag : Bool) : TcpDisBuf :=
  if commitFlag then
    { tp with trailp := tp.leadp, trailp_le := Nat.le_refl _ }
  else
    { tp with
      leadp := tp.trailp
      trailp_le := Nat.le_refl _
      leadp_le := tp.trailp_le.trans tp.leadp_le }

end TcpDisBuf

end Torque.Dis
