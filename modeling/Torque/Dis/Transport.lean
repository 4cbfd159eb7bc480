import Torque.Dis.ReadBuffer
import Torque.Dis.WriteBuffer

/-!
# From one end of a connection to the other

The bytes that one side puts on the socket arrive at the other side in some chunks.  What the
caller there is handed is what was committed here, from the first byte on.
-/

namespace Torque.Dis.Buffered

open Torque.Transition List

/-- What a socket is going to deliver. -/
def stream (incoming : List Delivery) : List UInt8 :=
  (incoming.map Delivery.bytes).flatten

/-- A call takes bytes from the socket in their order, and loses none. -/
theorem received_readStep {side : ReadSide} {call : ReadCall} (tracks : side.Tracks)
    (safe : Safe side call) :
    (readStep side call).received ++ stream (readStep side call).incoming =
      side.received ++ stream side.incoming := by
  obtain ⟨tp, unread, buffer, stores, -⟩ := tracks
  have safe := safe tp buffer
  have gets : ∀ ct, GetsSafely ct side.incoming tp →
      (getsStep side tp ct).received ++ stream (getsStep side tp ct).incoming =
        side.received ++ stream side.incoming := by
    intro ct safe
    obtain ⟨answer, next, left, taken, gets, split, -⟩ := stores.getsLoop safe 0
    rw [getsStep_eq gets, split, takenBytes, length_append, Nat.add_sub_cancel, take_left]
    simp [stream]
  rw [readStep, buffer]
  cases call with
  | tcpGets ct => exact gets ct safe
  | tcpGetc =>
    dsimp only
    rw [getcStep_eq stores safe.1 safe.2]
    exact gets 1 safe.1
  | tcpRcommit commitFlag => cases commitFlag <;> rfl
  | tcpRead =>
    cases incoming : side.incoming with
    | nil => simp
    | cons delivery left => simp [stream]

/-- In runs of calls whose sizes fit and that are safe, over a socket that delivers in its order
what was sent, the caller is handed a beginning of what was committed. -/
theorem handed_prefix_committed (writes : List WriteCall) (incoming : List Delivery)
    (reads : List ReadCall) (fits : Admissible writeStep SizesFit .new writes)
    (safe : Admissible readStep Safe (.new incoming) reads)
    (carried : stream incoming <+: (run writeStep .new writes).sent) :
    (run readStep (.new incoming) reads).committed ++
        (run readStep (.new incoming) reads).handed <+:
      (run writeStep .new writes).committed := by
  obtain ⟨_, outgoing, -, -, committed, -⟩ : (run writeStep .new writes).Tracks :=
    invariant WriteSide.Tracks ⟨.new, [], rfl, Holds.new, rfl, rfl⟩
      (fun _ _ tracks fits => tracks_writeStep tracks fits) fits
  obtain ⟨⟨_, unread, -, -, received⟩, all⟩ := invariant
    (fun side : ReadSide => side.Tracks ∧
      side.received ++ stream side.incoming = stream incoming)
    ⟨⟨.new, [], rfl, Stores.new, rfl⟩, rfl⟩
    (fun _ _ ⟨tracks, all⟩ safe =>
      ⟨tracks_readStep tracks safe, (received_readStep tracks safe).trans all⟩) safe
  rw [received, append_assoc, append_assoc, ← append_assoc] at all
  rw [committed]
  exact IsPrefix.trans ⟨_, all⟩ (carried.trans (prefix_append _ _))

/-- Two bytes are committed and flushed, and the first one has arrived. -/
theorem handed_prefix_committed_one :
    let writes := [.tcpPuts [1, 2], .tcpWcommit true, .disTcpWflush [2]]
    let reads := run readStep (.new [.chunk [1] true]) [.tcpGetc]
    reads.handed = [1] ∧
      reads.committed ++ reads.handed <+: (run writeStep .new writes).committed := by
  refine ⟨rfl, handed_prefix_committed _ _ _ ⟨?_, ?_, ?_, trivial⟩ ⟨?_, trivial⟩ (by decide)⟩
  · rintro tp ⟨⟩ full
    exact absurd (by decide) full
  · exact fun _ _ => trivial
  · rintro tp ⟨⟩
    exact ⟨by decide, show _ < 2 ^ 31 by decide⟩
  · rintro tp ⟨⟩
    refine ⟨.inr ⟨fun big => absurd (by decide) big, fun _ _ _ _ => trivial⟩, ?_⟩
    rintro byte ⟨⟩
    decide

end Torque.Dis.Buffered
