import Torque.Dis.AttributeList
import Torque.Server.Types

/-!
# Batch replies on the wire

`encode_DIS_reply` writes the reply of the server to a request: two codes, and one of nine kinds of
contents.  `decode_DIS_replyCmd` reads it in the commands and `decode_DIS_replySvr` in another
server.  They were written separately.  The second one does not know the reply to a resource query,
and in a status reply it does not look whether the attributes of an object could be read.
-/

namespace Torque.Dis

open Torque.Server (pbsMaxsvrjobid pbsMaxdest)

/-! ## The reply -/

/-- The characters of `brp_objname`. -/
def pbsMaxObjName : Nat :=
  if pbsMaxsvrjobid > pbsMaxdest then pbsMaxsvrjobid else pbsMaxdest

/-- A string in a field for that many characters and a terminator. -/
abbrev FieldString (size : Nat) := { bytes : List UInt8 // 0 ∉ bytes ∧ bytes.length ≤ size }

/-- `brp_status`. -/
structure BrpStatus where
  brpObjtype : Int32
  brpObjname : FieldString pbsMaxObjName
  brpAttr : List SvrattrlSent

/-- An entry of each of the arrays of `brp_rescq`. -/
structure RescCounts where
  avail : Int32
  alloc : Int32
  resvd : Int32
  down : Int32

/-- `brp_rescq`.  The number of the entries is an `int`. -/
structure BrpRescq where
  counts : List RescCounts
  number : counts.length < 2 ^ 31

/-- `brp_un`, with `brp_choice`. -/
inductive BrpUn where
  | null
  | queue (brpJid : FieldString pbsMaxsvrjobid)
  | rdytoCom (brpJid : FieldString pbsMaxsvrjobid)
  | commit (brpJid : FieldString pbsMaxsvrjobid)
  | select (brpSelect : List (FieldString pbsMaxsvrjobid))
  | status (brpStatus : List BrpStatus)
  | text (brpStr : List UInt8)
  | locate (brpLocate : FieldString pbsMaxdest)
  | rescQuery (brpRescq : BrpRescq)

/-- `batch_reply`. -/
structure BatchReply where
  brpCode : Int32
  brpAuxcode : Int32
  brpUn : BrpUn

/-- `brp_choice`. -/
def BrpUn.choice : BrpUn → UInt32
  | .null => 1
  | .queue _ => 2
  | .rdytoCom _ => 3
  | .commit _ => 4
  | .select _ => 5
  | .status _ => 6
  | .text _ => 7
  | .locate _ => 8
  | .rescQuery _ => 9

/-! ## The encoder -/

/-- `PBS_BATCH_PROT_TYPE`. -/
def pbsBatchProtType : UInt32 := 2

/-- `PBS_BATCH_PROT_VER`. -/
def pbsBatchProtVer : UInt32 := 2

/-- An `int` that is written by `diswui`. -/
def diswuiInt (value : Int32) : List UInt8 :=
  diswui value.toUInt32

/-- One object of a status reply. -/
def encodeStatus (pstat : BrpStatus) : List UInt8 :=
  diswuiInt pstat.brpObjtype ++ (diswcs pstat.brpObjname.1 ++ encodeDisSvrattrl pstat.brpAttr)

/-- The `switch` of `encode_DIS_reply`. -/
def encodeUn : BrpUn → List UInt8
  | .null => []
  | .queue jid => diswcs jid.1
  | .rdytoCom jid => diswcs jid.1
  | .commit jid => diswcs jid.1
  | .select jobids => diswui (.ofNat jobids.length) ++ jobids.flatMap (diswcs ·.1)
  | .status objects => diswui (.ofNat objects.length) ++ objects.flatMap encodeStatus
  | .text str => diswcs str
  | .locate dest => diswcs dest.1
  | .rescQuery rescq =>
    diswui (.ofNat rescq.counts.length) ++ (rescq.counts.flatMap (diswuiInt ·.avail) ++
      (rescq.counts.flatMap (diswuiInt ·.alloc) ++ (rescq.counts.flatMap (diswuiInt ·.resvd) ++
        rescq.counts.flatMap (diswuiInt ·.down))))

/-- `encode_DIS_reply`: what it hands to `tcp_puts`. -/
def encodeDisReply (reply : BatchReply) : List UInt8 :=
  diswui pbsBatchProtType ++ (diswui pbsBatchProtVer ++ (diswsi reply.brpCode ++
    (diswsi reply.brpAuxcode ++ (diswui reply.brpUn.choice ++ encodeUn reply.brpUn))))

/-! ## The decoders -/

/-- `brp_cmdstat` or `brp_status` as it is decoded. -/
structure StatusRead (α : Type) where
  brpObjtype : Int32
  brpObjname : List UInt8
  brpAttr : List α
  deriving DecidableEq

/-- `brp_un` as it is decoded, with `brp_choice`. -/
inductive UnRead (α : Type) where
  | null
  | queue (brpJid : List UInt8)
  | rdytoCom (brpJid : List UInt8)
  | commit (brpJid : List UInt8)
  | select (brpSelect : List (List UInt8))
  | status (brpStatus : List (StatusRead α))
  | text (brpStr : List UInt8)
  | locate (brpLocate : List UInt8)
  | rescQuery (number : Int) (avail alloc resvd down : List Int32)
  deriving DecidableEq

/-- `batch_reply` as it is decoded. -/
structure ReplyRead (α : Type) where
  brpCode : Int32
  brpAuxcode : Int32
  brpUn : UnRead α
  deriving DecidableEq

/-- What the decoders return instead of 0. -/
inductive ReplyError where
  | dis (code : DisCode)
  /-- The -1 for a choice that the decoder does not know -/
  | unknownChoice
  deriving DecidableEq

/-- A decoder of a list, as a reader. -/
def ofItems {α : Type} (decode : TcpChan → ItemsRead α) : Reader (List α) := fun chan =>
  let read := decode chan
  (read.code.map fun _ => read.items, read.chan)

variable (platform : Platform)

/-- An allocation. -/
def allocate (size : Nat) : Reader Unit :=
  if platform.calloc size = false then Reader.fail .nomalloc else pure ()

/-- An `int` that is read by `disrui`. -/
def disruiInt : Reader Int32 := do
  let value ← disrui
  pure (UInt32.ofNat value).toInt32

/-- `sizeof(struct brp_select)` on an LP64 platform. -/
def sizeofBrpSelect : Nat := 1056

/-- `sizeof(struct brp_cmdstat)`. -/
def sizeofBrpCmdstat : Nat := 1072

/-- `sizeof(struct brp_status)`. -/
def sizeofBrpStatus : Nat := 1104

/-- One job of a select reply. -/
def readSelect (achars : Nat) : Reader (List UInt8) := do
  let _ ← allocate platform sizeofBrpSelect
  disrfst platform achars

/-- One object of a status reply, in `decode_DIS_replyCmd`. -/
def readStatusCmd : Reader (StatusRead Attrl) := do
  let _ ← allocate platform sizeofBrpCmdstat
  let objtype ← disruiInt
  let objname ← disrfst platform pbsMaxObjName
  let attrs ← ofItems (decodeDisAttrl platform)
  pure ⟨objtype, objname, attrs⟩

/-- The arrays of the reply to a resource query. -/
def readRescq : Reader (UnRead Attrl) := do
  let ct ← disrui
  -- `calloc` fails for a number that is negative as an `int`
  if toCInt ct < 0 ∨ platform.calloc (4 * ct) = false then
    Reader.fail .nomalloc
  else
    let avail ← ofItems (readItems disruiInt ct)
    let alloc ← ofItems (readItems disruiInt ct)
    let resvd ← ofItems (readItems disruiInt ct)
    let down ← ofItems (readItems disruiInt ct)
    pure (.rescQuery (toCInt ct) avail alloc resvd down)

/-- The `switch` of `decode_DIS_replyCmd`. -/
def readUnCmd : Nat → Option (Reader (UnRead Attrl))
  | 1 => some (pure .null)
  | 2 => some (disrfst platform pbsMaxsvrjobid >>= fun jid => pure (.queue jid))
  | 3 => some (disrfst platform pbsMaxsvrjobid >>= fun jid => pure (.rdytoCom jid))
  | 4 => some (disrfst platform pbsMaxsvrjobid >>= fun jid => pure (.commit jid))
  | 5 => some (ofItems (readCounted (readSelect platform pbsMaxsvrjobid)) >>= fun jobids =>
    pure (.select jobids))
  | 6 => some (ofItems (readCounted (readStatusCmd platform)) >>= fun objects =>
    pure (.status objects))
  | 7 => some (disrcs platform >>= fun str => pure (.text str))
  | 8 => some (disrfst platform pbsMaxdest >>= fun dest => pure (.locate dest))
  | 9 => some (readRescq platform)
  | _ => none

/-- The head of an object of a status reply, in `decode_DIS_replySvr`. -/
def readStatusHead : Reader (Int32 × List UInt8) := do
  let _ ← allocate platform sizeofBrpStatus
  let objtype ← disruiInt
  let objname ← disrfst platform (pbsMaxsvrjobid + 1)
  pure (objtype, objname)

/-- The loop over the objects of a status reply in `decode_DIS_replySvr`.  The code of
`decode_DIS_svrattrl` counts only for the last object. -/
def readStatusesSvr (platform : Platform) :
    Nat → Except DisCode Unit → TcpChan → ItemsRead (StatusRead Svrattrl)
  | 0, rc, chan => ⟨rc, [], chan⟩
  | ct + 1, _, chan =>
    match readStatusHead platform chan with
    | (.error code, chan) => ⟨.error code, [], chan⟩
    | (.ok (objtype, objname), chan) =>
      let attrs := decodeDisSvrattrlFrom platform.calloc chan
      let later := readStatusesSvr platform ct attrs.code attrs.chan
      ⟨later.code, ⟨objtype, objname, attrs.items⟩ :: later.items, later.chan⟩

/-- A status reply in `decode_DIS_replySvr`. -/
def readStatusSvr (chan : TcpChan) : ItemsRead (StatusRead Svrattrl) :=
  match disrui chan with
  | (.error code, chan) => ⟨.error code, [], chan⟩
  | (.ok ct, chan) => readStatusesSvr platform ct (.ok ()) chan

/-- The `switch` of `decode_DIS_replySvr`. -/
def readUnSvr : Nat → Option (Reader (UnRead Svrattrl))
  | 1 => some (pure .null)
  | 2 => some (disrfst platform (pbsMaxsvrjobid + 1) >>= fun jid => pure (.queue jid))
  | 3 => some (disrfst platform (pbsMaxsvrjobid + 1) >>= fun jid => pure (.rdytoCom jid))
  | 4 => some (disrfst platform (pbsMaxsvrjobid + 1) >>= fun jid => pure (.commit jid))
  | 5 => some (ofItems (readCounted (readSelect platform (pbsMaxsvrjobid + 1))) >>= fun jobids =>
    pure (.select jobids))
  | 6 => some (ofItems (readStatusSvr platform) >>= fun objects => pure (.status objects))
  | 7 => some (disrcs platform >>= fun str => pure (.text str))
  | 8 => some (disrfst platform (pbsMaxdest + 1) >>= fun dest => pure (.locate dest))
  | _ => none

/-- The header of a reply: the codes and the choice. -/
def readHeader : Reader (Int32 × Int32 × Nat) := do
  let protType ← disrui
  if protType ≠ pbsBatchProtType.toNat then
    Reader.fail .proto
  else
    let protVer ← disrui
    if protVer ≠ pbsBatchProtVer.toNat then
      Reader.fail .proto
    else
      let code ← disrsi
      let auxcode ← disrsi
      let choice ← disrui
      pure (code, auxcode, choice)

/-- The decoders, which differ in the `switch`. -/
def decodeReply {α : Type} (readUn : Nat → Option (Reader (UnRead α))) (chan : TcpChan) :
    Except ReplyError (ReplyRead α) × TcpChan :=
  match readHeader chan with
  | (.error code, chan) => (.error (.dis code), chan)
  | (.ok (code, auxcode, choice), chan) =>
    match readUn choice with
    | none => (.error .unknownChoice, chan)
    | some reader =>
      match reader chan with
      | (.error code, chan) => (.error (.dis code), chan)
      | (.ok un, chan) => (.ok ⟨code, auxcode, un⟩, chan)

/-- `decode_DIS_replyCmd`. -/
def decodeDisReplyCmd : TcpChan → Except ReplyError (ReplyRead Attrl) × TcpChan :=
  decodeReply (readUnCmd platform)

/-- `decode_DIS_replySvr`. -/
def decodeDisReplySvr : TcpChan → Except ReplyError (ReplyRead Svrattrl) × TcpChan :=
  decodeReply (readUnSvr platform)

end Torque.Dis
