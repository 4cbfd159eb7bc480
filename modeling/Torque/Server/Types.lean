import Mathlib.Algebra.Order.Ring.Int

/-!
# Values shared by the server's modules

Job states, the error codes of the modelled functions, and the names of queues,
users and jobs.  A name may carry the name of a server behind an `@`.
-/

namespace Torque.Server

/-- The `JOB_STATE_*` values. -/
inductive JobState where
  | transit
  | queued
  | held
  | waiting
  | running
  | exiting
  | complete
  deriving DecidableEq, Repr

/-- The `PBSE_*` codes the modelled functions tell apart; `other` stands for any
further code, system error numbers included. -/
inductive Pbse where
  | none
  | badDepend
  | badstate
  | expired
  | ghostqueue
  | internal
  | ivalreq
  | jobNotInQueue
  | jobRecycled
  | jobnotfound
  | maxqued
  | maxuserqued
  | noattr
  | noconnects
  | perm
  | qacess
  | qunoenb
  | rescConflict
  | routeexpd
  | routerej
  | system
  | unkjobid
  | unkque
  | unkresc
  | other (code : Int)
  deriving DecidableEq, Repr

/-- `PBS_MAXSERVERNAME`. -/
def pbsMaxservername : Nat := 1024

/-- `PBS_MAXSVRJOBID`, with a `PBS_MAXSEQNUM` of 8. -/
def pbsMaxsvrjobid : Nat := 8 + 1024 + 5 + 7 + 2

/-- `PBS_MAXDEST`. -/
def pbsMaxdest : Nat := 1024

/-- The characters of a C string, without its terminator. -/
abbrev Name := List Char

scoped instance : LawfulBEq Name :=
  inferInstance

/-- The part of a name in front of the first `@`. -/
def stripServer (name : Name) : Name :=
  name.takeWhile fun c => decide (c ≠ '@')

/-- Cutting a name off behind the part in front of the `@` does not change that
part. -/
theorem stripServer_take {name : Name} {n : Nat} (short : (stripServer name).length ≤ n) :
    stripServer (name.take n) = stripServer name := by
  induction name generalizing n with
  | nil => simp [stripServer]
  | cons c rest ih =>
    by_cases at_ : c = '@'
    · cases n <;> simp [stripServer, at_]
    · cases n with
      | zero => simp [stripServer, at_] at short
      | succ n =>
        have tail : stripServer (rest.take n) = stripServer rest := by
          apply ih
          simpa [stripServer, at_] using short
        simpa [stripServer, at_] using tail

end Torque.Server
