import Torque.Dis.Integer

/-!
# Decoding a list of server attributes

`decode_DIS_svrattrl` reads attribute entries from a peer.  For each entry the
peer announces the total length of three strings; the decoder allocates one
block for the entry and copies the strings into it, keeping the room that is
left in an unsigned counter `data_len` and passing that counter to `disrfcs`
as the limit of the next string.

The counter is lowered by each string *with* its terminator.  A string that
fills the room exactly therefore takes the counter below zero, where it wraps
to `UINT_MAX`, and the strings after it are accepted at any length.  The value
is stored behind lengths that were cut down to `int`s, so a name or a resource of
`INT_MAX` bytes puts it in front of the block.  The main result determines exactly
which entries stay inside their block.
-/

namespace Torque.Dis

variable {dataLen : Nat} {chan next : TcpChan} {calloc : Nat → Bool}

/-- `sizeof(svrattrl)` on an LP64 platform. -/
def sizeofSvrattrl : Nat := 88

/-- `data_len -= ls` for an `unsigned int` counter. -/
def subUnsigned (dataLen ls : Nat) : Nat :=
  (dataLen + (2 ^ 32 - ls % 2 ^ 32)) % 2 ^ 32

/-- One decoded `svrattrl`.  The strings are the bytes written before each
terminator. -/
structure Svrattrl where
  /-- The announced length of the entry, taken as at least 1; `announced + 2`
  bytes follow the structure in the allocated block. -/
  announced : Nat
  alName : List UInt8
  alResc : Option (List UInt8)
  alValue : List UInt8
  /-- `al_value - al_name` -/
  alValueAt : Int
  alTsize : Int
  alNameln : Int
  alRescln : Int
  alValln : Int
  alOp : Nat
  deriving DecidableEq, Repr

/-- The optional resource name of an entry, with the room left after it. -/
def readResc (dataLen : Nat) : Reader (Option (List UInt8) × Nat) := do
  let hasresc ← disrui
  if hasresc = 0 then
    pure (none, dataLen)
  else
    let resc ← disrfcs dataLen
    pure (some resc, subUnsigned dataLen (resc.length + 1))

/-- `al_rescln`: the resource name with its terminator, 0 without one. -/
def rescLen : Option (List UInt8) → Nat
  | none => 0
  | some resc => resc.length + 1

/-- One pass of the loop in `decode_DIS_svrattrl`.  `calloc` says whether an
allocation of the given size succeeds. -/
def decodeEntry (calloc : Nat → Bool) : Reader Svrattrl := do
  let announced ← disrui
  -- an announced length of 0 is taken as `sizeof(char)`
  let dataLen := max 1 announced
  let tsize := sizeofSvrattrl + dataLen + 2
  if calloc tsize = false then
    Reader.fail .nomalloc
  else
    let name ← disrfcs dataLen
    let (resc, room) ← readResc (subUnsigned dataLen (name.length + 1))
    let value ← disrfcs room
    let op ← disrui
    pure
      { announced := dataLen
        alName := name
        alResc := resc
        alValue := value
        -- a pointer and two `int`s are added up
        alValueAt := toCInt (name.length + 1) + toCInt (rescLen resc)
        alTsize := toCInt tsize
        alNameln := toCInt (name.length + 1)
        alRescln := toCInt (rescLen resc)
        alValln := toCInt (value.length + 1)
        alOp := op }

/-- The loop of `decode_DIS_svrattrl`: the outcome together with the entries
appended to the caller's list, which stay there when a later entry fails. -/
def decodeEntries (calloc : Nat → Bool) :
    Nat → TcpChan → Except DisCode Unit × List Svrattrl
  | 0, _ => (.ok (), [])
  | numattr + 1, chan =>
    match decodeEntry calloc chan with
    | (.error code, _) => (.error code, [])
    | (.ok entry, chan) =>
      let (outcome, entries) := decodeEntries calloc numattr chan
      (outcome, entry :: entries)

/-- `decode_DIS_svrattrl`. -/
def decodeDisSvrattrl (calloc : Nat → Bool) (chan : TcpChan) :
    Except DisCode Unit × List Svrattrl :=
  match disrui chan with
  | (.error code, _) => (.error code, [])
  | (.ok numattr, chan) => decodeEntries calloc numattr chan

/-! ## The message as it stands on the wire -/

/-- The lengths one entry of the message consists of. -/
structure WireEntry where
  announced : Nat
  name : Nat
  resc : Option Nat
  value : Nat
  deriving DecidableEq, Repr

/-- `SIZE_MAX`, used to read strings without a limit. -/
def sizeMax : Nat := 2 ^ 64 - 1

/-- The lengths of the next entry of the stream, read without any limit. -/
def wireEntry : Reader WireEntry := do
  let announced ← disrui
  let name ← disrfcs sizeMax
  let (resc, _) ← readResc sizeMax
  let value ← disrfcs sizeMax
  let _ ← disrui
  pure ⟨announced, name.length, resc.map List.length, value.length⟩

/-- The lengths of the next `numattr` entries of the stream. -/
def wireEntries : Nat → Reader (List WireEntry)
  | 0 => pure []
  | numattr + 1 => do
      let entry ← wireEntry
      let entries ← wireEntries numattr
      pure (entry :: entries)

/-- The entries of a whole attribute message. -/
def wireMessage : Reader (List WireEntry) := do
  let numattr ← disrui
  wireEntries numattr

/-- No string of the entry exhausts the announced room, unless nothing but an
empty value follows it.  Without a resource the name stops short of the room
or the value is empty; with one, the name stops short of the room, and name,
terminator and resource together do or the value is empty. -/
def WireEntry.RoomLeft (entry : WireEntry) : Prop :=
  match entry.resc with
  | none => entry.name < max 1 entry.announced ∨ entry.value = 0
  | some resc =>
    entry.name < max 1 entry.announced ∧
      (entry.name + 1 + resc < max 1 entry.announced ∨ entry.value = 0)

/-- The lengths of the name and of the resource, with their terminators, are
`int`s. -/
def WireEntry.ShortNames (entry : WireEntry) : Prop :=
  entry.name + 1 < 2 ^ 31 ∧ ∀ resc ∈ entry.resc, resc + 1 < 2 ^ 31
deriving Decidable

/-- The room left after an optional resource name of the given length. -/
def roomAfterResc (dataLen : Nat) : Option Nat → Nat
  | none => dataLen
  | some resc => subUnsigned dataLen (resc + 1)

/-- The block of the entry is allocated, and each string is covered by the counter
that the strings before it leave, wrapped or not. -/
structure WireEntry.Accepted (calloc : Nat → Bool) (entry : WireEntry) : Prop where
  granted : calloc (sizeofSvrattrl + max 1 entry.announced + 2) = true
  name : entry.name ≤ max 1 entry.announced
  resc : ∀ resc ∈ entry.resc, resc ≤ subUnsigned (max 1 entry.announced) (entry.name + 1)
  value : entry.value ≤
    roomAfterResc (subUnsigned (max 1 entry.announced) (entry.name + 1)) entry.resc

instance (entry : WireEntry) : Decidable entry.RoomLeft :=
  match entry with
  | ⟨_, _, none, _⟩ => inferInstanceAs (Decidable (_ ∨ _))
  | ⟨_, _, some _, _⟩ => inferInstanceAs (Decidable (_ ∧ (_ ∨ _)))

/-! ## The room counter -/

/-- A string that leaves room lowers the counter by its length and terminator. -/
theorem subUnsigned_of_lt {n : Nat} (small : dataLen < 2 ^ 32) (lt : n < dataLen) :
    subUnsigned dataLen (n + 1) = dataLen - (n + 1) := by
  unfold subUnsigned
  omega

theorem subUnsigned_lt (dataLen ls : Nat) : subUnsigned dataLen ls < 2 ^ 32 :=
  Nat.mod_lt _ (by decide)

/-! ## One entry -/

/-- Bytes the name and the resource take up in the block, with their terminators. -/
def Svrattrl.namesEnd (entry : Svrattrl) : Nat :=
  entry.alName.length + 1 + rescLen entry.alResc

/-- The recorded lengths stay within the announced length plus two, and so do
the bytes actually written behind the structure: the value lies behind the other
strings and ends there. -/
def Svrattrl.InsideBlock (entry : Svrattrl) : Prop :=
  entry.alNameln + entry.alRescln + entry.alValln ≤ entry.announced + 2 ∧
    entry.namesEnd ≤ entry.alValueAt ∧
    entry.alValueAt + (entry.alValue.length + 1) ≤ entry.announced + 2
deriving Decidable

/-- The length fields of the entry are the `int` conversions of the lengths with
their terminators, and the value is placed by them. -/
structure Svrattrl.Measured (entry : Svrattrl) : Prop where
  nameln : entry.alNameln = toCInt (entry.alName.length + 1)
  rescln : entry.alRescln = toCInt (rescLen entry.alResc)
  valln : entry.alValln = toCInt (entry.alValue.length + 1)
  valueAt : entry.alValueAt = entry.alNameln + entry.alRescln

/-- `entry` is what the decoder makes of the wire entry `wire`, whose strings it
accepts: the lengths agree. -/
structure Decodes (calloc : Nat → Bool) (wire : WireEntry) (entry : Svrattrl) : Prop where
  announced : entry.announced = max 1 wire.announced
  small : entry.announced < 2 ^ 32
  name : entry.alName.length = wire.name
  resc : entry.alResc.map List.length = wire.resc
  value : entry.alValue.length = wire.value
  measured : entry.Measured
  accepted : wire.Accepted calloc

variable {entry : Svrattrl} {wire : WireEntry}

theorem toCInt_eq_iff {n : Nat} : toCInt n = n ↔ n < 2 ^ 31 := by
  refine ⟨fun same => ?_, toCInt_of_lt⟩
  have bound := BitVec.toInt_lt (x := BitVec.ofNat 32 n)
  rw [← toCInt, same] at bound
  omega

/-- The recorded lengths never exceed the bytes written, so an entry stays inside
its block if the value is placed right and the written bytes fit. -/
theorem Svrattrl.Measured.insideBlock_iff (measured : entry.Measured) :
    entry.InsideBlock ↔
      (entry.alName.length + 1 < 2 ^ 31 ∧ rescLen entry.alResc < 2 ^ 31) ∧
        entry.namesEnd + (entry.alValue.length + 1) ≤ entry.announced + 2 := by
  have name := toCInt_le (entry.alName.length + 1)
  have resc := toCInt_le (rescLen entry.alResc)
  have value := toCInt_le (entry.alValue.length + 1)
  have nameSame := toCInt_eq_iff (n := entry.alName.length + 1)
  have rescSame := toCInt_eq_iff (n := rescLen entry.alResc)
  unfold Svrattrl.InsideBlock Svrattrl.namesEnd
  rw [measured.valueAt, measured.nameln, measured.rescln, measured.valln, ← nameSame, ← rescSame]
  omega

theorem rescLen_lt_iff {resc : Option (List UInt8)} {bound : Nat} (positive : 0 < bound) :
    rescLen resc < bound ↔ ∀ length ∈ resc.map List.length, length + 1 < bound := by
  cases resc with
  | none => simp [rescLen, positive]
  | some resc => simp [rescLen]

/-- An entry stays inside its block exactly when its lengths are `int`s and no string
exhausted the room before a nonempty one. -/
theorem Decodes.insideBlock_iff_roomLeft (decodes : Decodes calloc wire entry) :
    entry.InsideBlock ↔ wire.ShortNames ∧ wire.RoomLeft := by
  rw [decodes.measured.insideBlock_iff, rescLen_lt_iff (Nat.two_pow_pos 31), decodes.resc,
    decodes.name]
  refine and_congr_right fun _ => ?_
  have small := decodes.small
  obtain ⟨-, nameLe, rescLe, valueLe⟩ := decodes.accepted
  have rescEq := decodes.resc
  unfold Svrattrl.namesEnd WireEntry.RoomLeft
  rw [decodes.name, decodes.value]
  rw [decodes.announced] at small ⊢
  cases rescCase : entry.alResc with
  | none =>
    rw [rescCase, Option.map_none] at rescEq
    simp only [← rescEq, rescLen, roomAfterResc] at valueLe ⊢
    rcases Nat.lt_or_eq_of_le nameLe with short | full
    · rw [subUnsigned_of_lt small short] at valueLe
      omega
    · omega
  | some resc =>
    rw [rescCase, Option.map_some] at rescEq
    have rescLe := rescLe resc.length rescEq.symm
    simp only [← rescEq, rescLen, roomAfterResc] at valueLe ⊢
    rcases Nat.lt_or_eq_of_le nameLe with short | full
    · rw [subUnsigned_of_lt small short] at rescLe valueLe
      rcases Nat.lt_or_eq_of_le rescLe with rescShort | rescFull
      · rw [subUnsigned_of_lt (by omega) rescShort] at valueLe
        omega
      · omega
    · omega

/-! ## The whole message -/

/-- The resource reader respects its limit, reports the room that is left, and
reads the same resource under any limit that covers it. -/
theorem readResc_eq_ok {room : Nat} {resc : Option (List UInt8)}
    (read : readResc dataLen chan = (.ok (resc, room), next)) :
    (∀ length ∈ resc.map List.length, length ≤ dataLen) ∧
      room = roomAfterResc dataLen (resc.map List.length) ∧
      ∀ limit, (∀ length ∈ resc.map List.length, length ≤ limit) →
        readResc limit chan = (.ok (resc, roomAfterResc limit (resc.map List.length)), next) := by
  obtain ⟨hasresc, middle, flag, read⟩ := Reader.bind_eq_ok_iff.mp read
  by_cases absent : hasresc = 0
  · rw [if_pos absent] at read
    cases read
    refine ⟨by simp, rfl, fun limit _ => ?_⟩
    exact Reader.bind_eq_ok_iff.mpr ⟨_, _, flag, by rw [if_pos absent]; rfl⟩
  · rw [if_neg absent] at read
    obtain ⟨bytes, last, got, read⟩ := Reader.bind_eq_ok_iff.mp read
    cases read
    obtain ⟨within, wider⟩ := disrfcs_eq_ok got
    refine ⟨?_, rfl, fun limit covers => ?_⟩
    · rintro _ ⟨⟩
      exact within
    · refine Reader.bind_eq_ok_iff.mpr ⟨_, _, flag, ?_⟩
      rw [if_neg absent]
      exact Reader.bind_eq_ok_iff.mpr ⟨_, _, wider limit (covers _ rfl), rfl⟩

/-- A decoded entry reflects an entry of the wire, and decoding it consumes
exactly that entry. -/
theorem decodeEntry_decodes (decoded : decodeEntry calloc chan = (.ok entry, next)) :
    ∃ wire, wireEntry chan = (.ok wire, next) ∧ Decodes calloc wire entry := by
  obtain ⟨announced, afterLen, lenRead, decoded⟩ := Reader.bind_eq_ok_iff.mp decoded
  split at decoded
  · cases decoded
  · next granted =>
    obtain ⟨name, afterName, nameRead, decoded⟩ := Reader.bind_eq_ok_iff.mp decoded
    obtain ⟨⟨resc, room⟩, afterResc, rescRead, decoded⟩ :=
      Reader.bind_eq_ok_iff.mp decoded
    obtain ⟨value, afterValue, valueRead, decoded⟩ :=
      Reader.bind_eq_ok_iff.mp decoded
    obtain ⟨op, afterOp, opRead, decoded⟩ := Reader.bind_eq_ok_iff.mp decoded
    cases decoded
    have announcedLt := disrui_value_lt lenRead
    obtain ⟨nameLe, nameWire⟩ := disrfcs_eq_ok nameRead
    obtain ⟨valueLe, valueWire⟩ := disrfcs_eq_ok valueRead
    have restLt := subUnsigned_lt (max 1 announced) (name.length + 1)
    obtain ⟨rescLe, roomEq, rescWire⟩ := readResc_eq_ok rescRead
    have roomLt : room < 2 ^ 32 := by
      cases resc with
      | none => rw [roomEq]; exact restLt
      | some bytes => rw [roomEq]; exact subUnsigned_lt _ _
    have wide : 2 ^ 32 ≤ sizeMax := by decide
    refine ⟨⟨announced, name.length, resc.map List.length, value.length⟩, ?_, ?_⟩
    · refine Reader.bind_eq_ok_iff.mpr ⟨_, _, lenRead, ?_⟩
      refine Reader.bind_eq_ok_iff.mpr ⟨_, _, nameWire sizeMax (by omega), ?_⟩
      refine Reader.bind_eq_ok_iff.mpr ⟨_, _, rescWire sizeMax fun length mem => ?_, ?_⟩
      · exact (rescLe length mem).trans (restLt.le.trans wide)
      refine Reader.bind_eq_ok_iff.mpr ⟨_, _, valueWire sizeMax (by omega), ?_⟩
      exact Reader.bind_eq_ok_iff.mpr ⟨_, _, opRead, rfl⟩
    · refine ⟨rfl, by simp only; omega, rfl, rfl, rfl, ⟨rfl, rfl, rfl, rfl⟩, ?_⟩
      exact ⟨Bool.not_eq_false _ ▸ granted, nameLe, rescLe, roomEq ▸ valueLe⟩

/-- An entry of the wire whose strings are accepted is decoded. -/
theorem WireEntry.Accepted.decoded (accepted : wire.Accepted calloc)
    (read : wireEntry chan = (.ok wire, next)) :
    ∃ entry, decodeEntry calloc chan = (.ok entry, next) := by
  obtain ⟨announced, afterLen, lenRead, read⟩ := Reader.bind_eq_ok_iff.mp read
  obtain ⟨name, afterName, nameRead, read⟩ := Reader.bind_eq_ok_iff.mp read
  obtain ⟨⟨resc, room⟩, afterResc, rescRead, read⟩ := Reader.bind_eq_ok_iff.mp read
  obtain ⟨value, afterValue, valueRead, read⟩ := Reader.bind_eq_ok_iff.mp read
  obtain ⟨op, afterOp, opRead, read⟩ := Reader.bind_eq_ok_iff.mp read
  cases read
  obtain ⟨granted, nameLe, rescLe, valueLe⟩ := accepted
  have nameNow := (disrfcs_eq_ok nameRead).2 _ nameLe
  have rescNow := (readResc_eq_ok rescRead).2.2 _ rescLe
  have valueNow := (disrfcs_eq_ok valueRead).2 _ valueLe
  simp [decodeEntry, bind, Reader.bind, lenRead, granted, nameNow, rescNow, valueNow, opRead,
    pure, Reader.pure]

/-- The entries appended by a successful call are, in order, the entries of
the message. -/
theorem decodeEntries_decodes {numattr : Nat} {entries : List Svrattrl}
    (decoded : decodeEntries calloc numattr chan = (.ok (), entries)) :
    ∃ wires next, wireEntries numattr chan = (.ok wires, next) ∧
      List.Forall₂ (Decodes calloc) wires entries := by
  induction numattr generalizing chan entries with
  | zero =>
    cases decoded
    exact ⟨[], chan, rfl, .nil⟩
  | succ numattr ih =>
    simp only [decodeEntries] at decoded
    split at decoded
    · cases decoded
    · rename_i entry next first
      obtain ⟨wire, wireEq, decodes⟩ := decodeEntry_decodes first
      cases rest : decodeEntries calloc numattr next with
      | mk outcome later =>
        rw [rest] at decoded
        cases decoded
        obtain ⟨wires, final, wiresEq, related⟩ := ih rest
        refine ⟨wire :: wires, final, ?_, .cons decodes related⟩
        refine Reader.bind_eq_ok_iff.mpr ⟨_, _, wireEq, ?_⟩
        exact Reader.bind_eq_ok_iff.mpr ⟨_, _, wiresEq, rfl⟩

/-- Whenever the decoder succeeds, every entry it appends stays inside its
block exactly when the names and resources of the message have lengths that are
`int`s, and no string exhausts the room announced for its entry ahead of a nonempty
string. -/
theorem decodeDisSvrattrl_insideBlock_iff {calloc : Nat → Bool} {chan : TcpChan}
    {entries : List Svrattrl}
    (decoded : decodeDisSvrattrl calloc chan = (.ok (), entries)) :
    (∀ entry ∈ entries, entry.InsideBlock) ↔
      ∃ wires next, wireMessage chan = (.ok wires, next) ∧
        ∀ wire ∈ wires, wire.ShortNames ∧ wire.RoomLeft := by
  unfold decodeDisSvrattrl at decoded
  split at decoded
  · cases decoded
  · rename_i numattr body count
    obtain ⟨wires, next, wiresEq, related⟩ := decodeEntries_decodes decoded
    have message : wireMessage chan = (.ok wires, next) :=
      Reader.bind_eq_ok_iff.mpr ⟨_, _, count, wiresEq⟩
    have pointwise : (∀ entry ∈ entries, entry.InsideBlock) ↔
        ∀ wire ∈ wires, wire.ShortNames ∧ wire.RoomLeft := by
      clear message wiresEq decoded
      induction related with
      | nil => simp
      | cons decodes _ ih =>
        simp only [List.forall_mem_cons, decodes.insideBlock_iff_roomLeft, ih]
    rw [pointwise]
    constructor
    · intro roomLeft
      exact ⟨wires, next, message, roomLeft⟩
    · rintro ⟨wires', next', message', roomLeft⟩
      rw [message] at message'
      cases message'
      exact roomLeft

/-- An ordinary entry: `euser`, a resource `ncpus` and the value `12`, with the
three terminators counted in the announced length. -/
def ordinaryMessage : TcpChan :=
  { pending := []
    rest := [43, 49, 50, 43, 49, 53, 43, 53, 101, 117, 115, 101, 114, 43, 49,
      43, 53, 110, 99, 112, 117, 115, 43, 50, 49, 50, 43, 48]
    ended := .closed }

theorem decodeDisSvrattrl_ordinaryMessage :
    (decodeDisSvrattrl (fun _ => true) ordinaryMessage).1 = .ok () ∧
      ∀ entry ∈ (decodeDisSvrattrl (fun _ => true) ordinaryMessage).2,
        entry.InsideBlock := by
  have success : (decodeDisSvrattrl (fun _ => true) ordinaryMessage).1 = .ok () := by
    decide +kernel
  refine ⟨success, ?_⟩
  refine (decodeDisSvrattrl_insideBlock_iff (Prod.ext success rfl)).mpr ?_
  exact ⟨[⟨15, 5, some 5, 2⟩], (wireMessage ordinaryMessage).2,
    by decide +kernel, by decide +kernel⟩

/-- One entry that announces a single byte, spends it on the name `a` and goes
on with the value `bcd`. -/
def exhaustedMessage : TcpChan :=
  { pending := []
    rest := [43, 49, 43, 49, 43, 49, 97, 43, 48, 43, 51, 98, 99, 100, 43, 48]
    ended := .closed }

/-- The decoder accepts an entry whose strings do not fit its block. -/
theorem decodeDisSvrattrl_exhaustedMessage :
    ¬ ∀ (calloc : Nat → Bool) (chan : TcpChan) (entries : List Svrattrl),
      decodeDisSvrattrl calloc chan = (.ok (), entries) →
        ∀ entry ∈ entries, entry.InsideBlock := by
  intro inside
  have decoded := inside (fun _ => true) exhaustedMessage
    (decodeDisSvrattrl (fun _ => true) exhaustedMessage).2 (by decide +kernel)
  exact absurd decoded (by decide +kernel)

end Torque.Dis
