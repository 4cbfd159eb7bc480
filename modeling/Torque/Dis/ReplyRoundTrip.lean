import Torque.Dis.Reply

/-!
# Batch replies are read back

Both decoders give back the reply that was encoded, except that the reply to a resource query is
unknown to `decode_DIS_replySvr`, and that numbers and lengths have to be `unsigned int`s.
-/

namespace Torque.Dis

open List
open Torque.Server (pbsMaxsvrjobid)

/-! ## What is to be read back -/

section

variable {α β : Type} (f : α → β)

/-- The object with its attributes in another form. -/
def StatusRead.map (status : StatusRead α) : StatusRead β :=
  ⟨status.brpObjtype, status.brpObjname, status.brpAttr.map f⟩

/-- The contents with the attributes in another form. -/
def UnRead.map : UnRead α → UnRead β
  | .null => .null
  | .queue jid => .queue jid
  | .rdytoCom jid => .rdytoCom jid
  | .commit jid => .commit jid
  | .select jobids => .select jobids
  | .status objects => .status (objects.map (·.map f))
  | .text str => .text str
  | .locate dest => .locate dest
  | .rescQuery number avail alloc resvd down => .rescQuery number avail alloc resvd down

/-- The reply with the attributes in another form. -/
def ReplyRead.map (reply : ReplyRead α) : ReplyRead β :=
  ⟨reply.brpCode, reply.brpAuxcode, reply.brpUn.map f⟩

/-- The attributes of all objects. -/
def UnRead.attrs : UnRead α → List α
  | .status objects => objects.flatMap (·.brpAttr)
  | _ => []

end

/-- What is read for the attributes of an object. -/
def BrpStatus.attrs (pstat : BrpStatus) : List NamedAttr :=
  pstat.brpAttr.map SvrattrlSent.named

/-- The object as the commands are to read it. -/
def BrpStatus.shown (pstat : BrpStatus) : StatusRead AttroplRead :=
  ⟨pstat.brpObjtype, pstat.brpObjname.1, pstat.attrs.map NamedAttr.shown⟩

/-- The contents as the commands are to read them. -/
def BrpUn.shown : BrpUn → UnRead AttroplRead
  | .null => .null
  | .queue jid => .queue jid.1
  | .rdytoCom jid => .rdytoCom jid.1
  | .commit jid => .commit jid.1
  | .select jobids => .select (jobids.map (·.1))
  | .status objects => .status (objects.map BrpStatus.shown)
  | .text str => .text str
  | .locate dest => .locate dest.1
  | .rescQuery rescq =>
    .rescQuery rescq.counts.length (rescq.counts.map (·.avail)) (rescq.counts.map (·.alloc))
      (rescq.counts.map (·.resvd)) (rescq.counts.map (·.down))

/-- The codes and the contents of a reply. -/
def BatchReply.shown (reply : BatchReply) : ReplyRead AttroplRead :=
  ⟨reply.brpCode, reply.brpAuxcode, reply.brpUn.shown⟩

/-- `decode_DIS_replyCmd` reads the reply back, whatever follows it, and stops behind it. -/
def CmdReadsBack (reply : BatchReply) : Prop :=
  ∀ platform : Platform, (∀ size, platform.calloc size = true) → ∀ continuation ended,
    decodeDisReplyCmd platform ⟨[], encodeDisReply reply ++ continuation, ended⟩ =
      (.ok (reply.shown.map AttroplRead.toAttrl), ⟨[], continuation, ended⟩)

/-- `decode_DIS_replySvr` reads the reply back, whatever follows it, and stops behind it.  The
strings of the attributes lie in the blocks that are allocated for them. -/
def SvrReadsBack (reply : BatchReply) : Prop :=
  ∀ platform : Platform, (∀ size, platform.calloc size = true) → ∀ continuation ended,
    ∃ read, decodeDisReplySvr platform ⟨[], encodeDisReply reply ++ continuation, ended⟩ =
        (.ok read, ⟨[], continuation, ended⟩) ∧
      read.map Svrattrl.shown = reply.shown ∧ ∀ entry ∈ read.brpUn.attrs, entry.InsideBlock

/-- Numbers and lengths are `unsigned int`s, and each attribute fits. -/
def BrpUn.Sized : BrpUn → Prop
  | .select jobids => jobids.length < 2 ^ 32
  | .status objects => objects.length < 2 ^ 32 ∧ ∀ pstat ∈ objects,
      pstat.brpAttr.length < 2 ^ 32 ∧ ∀ attr ∈ pstat.brpAttr, attr.named.Fits
  | .text str => str.length < 2 ^ 32
  | _ => True

/-- The reply to a resource query. -/
def BrpUn.isRescQuery : BrpUn → Bool
  | .rescQuery _ => true
  | _ => false

/-! ## The parts -/

section

variable {platform : Platform} (allocates : ∀ size, platform.calloc size = true)

include allocates in
theorem reads_allocate (size : Nat) : Reads (allocate platform size) [] () := by
  unfold allocate
  rw [if_neg (by rw [allocates]; nofun)]
  exact .pure ()

theorem reads_disruiInt (value : Int32) : Reads disruiInt (diswuiInt value) value := by
  refine (reads_disrui _).bind_pure ?_
  rw [UInt32.ofNat_toNat, Int32.toInt32_toUInt32]

variable {α β : Type} {reader : Reader α} {write : β → List UInt8} {shown : β → α} {items : List β}
  {achars : Nat} (pstat : BrpStatus) {un : BrpUn} (ct : Nat) (rc : Except DisCode Unit)
  {objects : List BrpStatus}

theorem reads_readItems (reads : ∀ item ∈ items, Reads reader (write item) (shown item)) :
    Reads (ofItems (readItems reader items.length)) (items.flatMap write) (items.map shown) := by
  intro continuation ended
  rw [ofItems, readItems_flatMap reads]
  rfl

theorem reads_readCounted (few : items.length < 2 ^ 32)
    (reads : ∀ item ∈ items, Reads reader (write item) (shown item)) :
    Reads (ofItems (readCounted reader)) (diswui (.ofNat items.length) ++ items.flatMap write)
      (items.map shown) := by
  intro continuation ended
  rw [ofItems, readCounted_append, UInt32.toNat_ofNat_of_lt' few, readItems_flatMap reads]
  rfl

/-- A string of a field is read with any limit that the field has. -/
theorem reads_field {size : Nat} (string : FieldString size) (fits : size ≤ achars)
    (small : size < 2 ^ 32) : Reads (disrfst platform achars) (diswcs string.1) string.1 :=
  reads_disrfst platform (string.2.2.trans_lt small) (string.2.2.trans fits) string.2.1

include allocates in
theorem reads_readSelect (jobid : FieldString pbsMaxsvrjobid) (fits : pbsMaxsvrjobid ≤ achars) :
    Reads (readSelect platform achars) (diswcs jobid.1) jobid.1 :=
  (reads_allocate allocates sizeofBrpSelect).bind (reads_field jobid fits (by decide))

theorem encodeDisSvrattrl_eq : encodeDisSvrattrl pstat.brpAttr =
    diswui (.ofNat pstat.attrs.length) ++ pstat.attrs.flatMap NamedAttr.encode := by
  rw [encodeDisSvrattrl, flatMap_encodeSvrattrl, BrpStatus.attrs, length_map]

/-- The attributes of an object are not too many, and not too long. -/
theorem BrpStatus.attrs_fit {pstat : BrpStatus} :
    (pstat.brpAttr.length < 2 ^ 32 ∧ ∀ attr ∈ pstat.brpAttr, attr.named.Fits) ↔
      pstat.attrs.length < 2 ^ 32 ∧ ∀ attr ∈ pstat.attrs, attr.Fits := by
  rw [BrpStatus.attrs, length_map, forall_mem_map]

include allocates in
theorem reads_readStatusCmd {pstat : BrpStatus} (few : pstat.attrs.length < 2 ^ 32)
    (fits : ∀ attr ∈ pstat.attrs, attr.Fits) :
    Reads (readStatusCmd platform) (encodeStatus pstat)
      (pstat.shown.map AttroplRead.toAttrl) := by
  have attrs : Reads (ofItems (decodeDisAttrl platform)) (encodeDisSvrattrl pstat.brpAttr)
      (pstat.attrs.map fun attr => attr.shown.toAttrl) := by
    rw [encodeDisSvrattrl_eq]
    exact reads_readCounted few fun attr mem => reads_readAttrl allocates (fits attr mem).length
  refine (reads_allocate allocates sizeofBrpCmdstat).bind ?_
  refine (reads_disruiInt pstat.brpObjtype).bind ?_
  refine (reads_field pstat.brpObjname le_rfl (by decide)).bind ?_
  refine attrs.bind_pure ?_
  rw [BrpStatus.shown, StatusRead.map, map_map]
  rfl

include allocates in
theorem reads_readRescq (rescq : BrpRescq) :
    Reads (readRescq platform) (encodeUn (.rescQuery rescq))
      ((BrpUn.rescQuery rescq).shown.map AttroplRead.toAttrl) := by
  have number : (UInt32.ofNat rescq.counts.length).toNat = rescq.counts.length :=
    UInt32.toNat_ofNat_of_lt' (rescq.number.trans (by decide))
  have asInt := toCInt_of_lt rescq.number
  have granted : ¬ (toCInt rescq.counts.length < 0 ∨
      platform.calloc (4 * rescq.counts.length) = false) := by
    rintro (negative | refused)
    · omega
    · rw [allocates] at refused
      cases refused
  refine (reads_disrui _).bind ?_
  rw [number, if_neg granted, asInt]
  refine (reads_readItems fun counts _ => reads_disruiInt counts.avail).bind ?_
  refine (reads_readItems fun counts _ => reads_disruiInt counts.alloc).bind ?_
  refine (reads_readItems fun counts _ => reads_disruiInt counts.resvd).bind ?_
  exact (reads_readItems fun counts _ => reads_disruiInt counts.down).bind_pure rfl

include allocates in
/-- `decode_DIS_replyCmd` reads the contents back. -/
theorem reads_readUnCmd (sized : un.Sized) :
    ∃ reader, readUnCmd platform un.choice.toNat = some reader ∧
      Reads reader (encodeUn un) (un.shown.map AttroplRead.toAttrl) := by
  cases un with
  | null => exact ⟨_, rfl, .pure _⟩
  | queue jid => exact ⟨_, rfl, (reads_field jid le_rfl (by decide)).bind_pure rfl⟩
  | rdytoCom jid => exact ⟨_, rfl, (reads_field jid le_rfl (by decide)).bind_pure rfl⟩
  | commit jid => exact ⟨_, rfl, (reads_field jid le_rfl (by decide)).bind_pure rfl⟩
  | select jobids =>
    exact ⟨_, rfl, (reads_readCounted sized fun jobid _ =>
      reads_readSelect allocates jobid le_rfl).bind_pure rfl⟩
  | status objects =>
    have reads : ∀ pstat ∈ objects, Reads (readStatusCmd platform) (encodeStatus pstat)
        (pstat.shown.map AttroplRead.toAttrl) := by
      intro pstat mem
      rcases BrpStatus.attrs_fit.mp (sized.2 pstat mem) with ⟨few, small⟩
      exact reads_readStatusCmd allocates few small
    refine ⟨_, rfl, (reads_readCounted sized.1 reads).bind_pure ?_⟩
    rw [BrpUn.shown, UnRead.map, map_map]
    rfl
  | text str => exact ⟨_, rfl, (reads_disrcs platform allocates sized).bind_pure rfl⟩
  | locate dest => exact ⟨_, rfl, (reads_field dest le_rfl (by decide)).bind_pure rfl⟩
  | rescQuery rescq => exact ⟨_, rfl, reads_readRescq allocates rescq⟩

/-! ## The status reply between servers -/

/-- An object as `decode_DIS_replySvr` reads it. -/
def BrpStatus.decoded (pstat : BrpStatus) : StatusRead Svrattrl :=
  ⟨pstat.brpObjtype, pstat.brpObjname.1, pstat.attrs.map NamedAttr.decoded⟩

include allocates in
theorem reads_readStatusHead :
    Reads (readStatusHead platform) (diswuiInt pstat.brpObjtype ++ diswcs pstat.brpObjname.1)
      (pstat.brpObjtype, pstat.brpObjname.1) := by
  refine (reads_allocate allocates sizeofBrpStatus).bind ?_
  refine (reads_disruiInt pstat.brpObjtype).bind ?_
  exact (reads_field pstat.brpObjname (Nat.le_succ _) (by decide)).bind_pure rfl

include allocates in
theorem readStatusesSvr_cons (continuation : List UInt8) (ended : StreamEnd) :
    readStatusesSvr platform (ct + 1) rc ⟨[], encodeStatus pstat ++ continuation, ended⟩ =
      let attrs := decodeDisSvrattrlFrom platform.calloc
        ⟨[], encodeDisSvrattrl pstat.brpAttr ++ continuation, ended⟩
      let later := readStatusesSvr platform ct attrs.code attrs.chan
      ⟨later.code, ⟨pstat.brpObjtype, pstat.brpObjname.1, attrs.items⟩ :: later.items,
        later.chan⟩ := by
  have head := reads_readStatusHead allocates pstat
    (encodeDisSvrattrl pstat.brpAttr ++ continuation) ended
  rw [readStatusesSvr, encodeStatus, ← append_assoc, append_assoc, head]

include allocates in
theorem decodeDisSvrattrlFrom_encode {pstat : BrpStatus} (few : pstat.attrs.length < 2 ^ 32)
    (fits : ∀ attr ∈ pstat.attrs, attr.Fits) (continuation : List UInt8)
    (ended : StreamEnd) :
    decodeDisSvrattrlFrom platform.calloc
        ⟨[], encodeDisSvrattrl pstat.brpAttr ++ continuation, ended⟩ =
      ⟨.ok (), pstat.attrs.map NamedAttr.decoded, ⟨[], continuation, ended⟩⟩ := by
  rw [encodeDisSvrattrl_eq, decodeDisSvrattrlFrom, readCounted_append,
    UInt32.toNat_ofNat_of_lt' few]
  exact readItems_flatMap (fun attr mem => reads_decodeEntry allocates (fits attr mem).length)
    continuation ended

include allocates in
theorem readStatusesSvr_flatMap
    (fit : ∀ pstat ∈ objects, pstat.attrs.length < 2 ^ 32 ∧
      ∀ attr ∈ pstat.attrs, attr.Fits) (continuation : List UInt8) (ended : StreamEnd) :
    readStatusesSvr platform objects.length (.ok ())
        ⟨[], objects.flatMap encodeStatus ++ continuation, ended⟩ =
      ⟨.ok (), objects.map BrpStatus.decoded, ⟨[], continuation, ended⟩⟩ := by
  induction objects with
  | nil => rfl
  | cons pstat objects ih =>
    rcases fit pstat mem_cons_self with ⟨few, small⟩
    have later := ih (forall_mem_cons.mp fit).2
    rw [flatMap_cons, append_assoc, length_cons, readStatusesSvr_cons allocates]
    rw [decodeDisSvrattrlFrom_encode allocates few small]
    dsimp only
    rw [later]
    rfl

theorem readStatusSvr_append (count : UInt32) (bytes continuation : List UInt8)
    (ended : StreamEnd) :
    readStatusSvr platform ⟨[], diswui count ++ bytes ++ continuation, ended⟩ =
      readStatusesSvr platform count.toNat (.ok ()) ⟨[], bytes ++ continuation, ended⟩ := by
  rw [readStatusSvr, append_assoc, reads_disrui]

include allocates in
theorem reads_readStatusSvr (few : objects.length < 2 ^ 32)
    (fit : ∀ pstat ∈ objects, pstat.attrs.length < 2 ^ 32 ∧
      ∀ attr ∈ pstat.attrs, attr.Fits) :
    Reads (ofItems (readStatusSvr platform)) (encodeUn (.status objects))
      (objects.map BrpStatus.decoded) := by
  intro continuation ended
  rw [ofItems, encodeUn, readStatusSvr_append, UInt32.toNat_ofNat_of_lt' few,
    readStatusesSvr_flatMap allocates fit]
  rfl

theorem shown_map_decoded (objects : List BrpStatus) :
    (UnRead.status (objects.map BrpStatus.decoded)).map Svrattrl.shown =
      (BrpUn.status objects).shown := by
  rw [UnRead.map, BrpUn.shown, map_map]
  congr 1
  apply map_congr_left
  intro pstat _
  rw [Function.comp_apply, BrpStatus.decoded, StatusRead.map, BrpStatus.shown, map_map]
  rfl

include allocates in
/-- `decode_DIS_replySvr` reads the contents back. -/
theorem reads_readUnSvr (sized : un.Sized) (known : un.isRescQuery = false) :
    ∃ reader value, readUnSvr platform un.choice.toNat = some reader ∧
      Reads reader (encodeUn un) value ∧ value.map Svrattrl.shown = un.shown ∧
      ∀ entry ∈ value.attrs, entry.InsideBlock := by
  cases un with
  | null => exact ⟨_, _, rfl, .pure _, rfl, forall_mem_nil _⟩
  | queue jid =>
    exact ⟨_, _, rfl, (reads_field jid (Nat.le_succ _) (by decide)).bind_pure rfl, rfl,
      forall_mem_nil _⟩
  | rdytoCom jid =>
    exact ⟨_, _, rfl, (reads_field jid (Nat.le_succ _) (by decide)).bind_pure rfl, rfl,
      forall_mem_nil _⟩
  | commit jid =>
    exact ⟨_, _, rfl, (reads_field jid (Nat.le_succ _) (by decide)).bind_pure rfl, rfl,
      forall_mem_nil _⟩
  | select jobids =>
    exact ⟨_, _, rfl, (reads_readCounted sized fun jobid _ =>
      reads_readSelect allocates jobid (Nat.le_succ _)).bind_pure rfl, rfl, forall_mem_nil _⟩
  | status objects =>
    obtain ⟨few, attrs⟩ := sized
    have fit := fun pstat mem => BrpStatus.attrs_fit.mp (attrs pstat mem)
    refine ⟨_, .status (objects.map BrpStatus.decoded), rfl,
      (reads_readStatusSvr allocates few fit).bind_pure rfl, shown_map_decoded objects, ?_⟩
    intro entry mem
    rcases mem_flatMap.mp mem with ⟨status, among, within⟩
    rcases mem_map.mp among with ⟨pstat, sent, rfl⟩
    rcases mem_map.mp within with ⟨attr, listed, rfl⟩
    exact ((fit pstat sent).2 attr listed).insideBlock
  | text str =>
    exact ⟨_, _, rfl, (reads_disrcs platform allocates sized).bind_pure rfl, rfl, forall_mem_nil _⟩
  | locate dest =>
    exact ⟨_, _, rfl, (reads_field dest (Nat.le_succ _) (by decide)).bind_pure rfl, rfl,
      forall_mem_nil _⟩
  | rescQuery rescq => cases known

include allocates in
/-- Objects that are read back have attributes that are not too many, and not too long. -/
theorem fit_of_readStatusesSvr {rc : Except DisCode Unit} {continuation : List UInt8}
    {ended : StreamEnd}
    (same : (readStatusesSvr platform objects.length rc
      ⟨[], objects.flatMap encodeStatus ++ continuation, ended⟩).items.map
        (·.map Svrattrl.shown) = objects.map BrpStatus.shown)
    (inside : ∀ status ∈ (readStatusesSvr platform objects.length rc
      ⟨[], objects.flatMap encodeStatus ++ continuation, ended⟩).items,
        ∀ entry ∈ status.brpAttr, entry.InsideBlock) :
    ∀ pstat ∈ objects, pstat.attrs.length < 2 ^ 32 ∧
      ∀ attr ∈ pstat.attrs, attr.Fits := by
  induction objects generalizing rc with
  | nil => exact forall_mem_nil _
  | cons pstat objects ih =>
    rw [flatMap_cons, append_assoc, length_cons, readStatusesSvr_cons allocates] at same inside
    rcases cons.inj same with ⟨sameHere, sameLater⟩
    have attrsSame := congrArg StatusRead.brpAttr sameHere
    have attrsInside := inside _ mem_cons_self
    rw [encodeDisSvrattrl_eq] at attrsSame attrsInside
    have mod : (UInt32.ofNat pstat.attrs.length).toNat = pstat.attrs.length % 2 ^ 32 :=
      UInt32.toNat_ofNat'
    rcases fits_of_decodeDisSvrattrlFrom allocates (mod.trans_le (Nat.mod_le _ _)) attrsSame
      attrsInside with ⟨number, small⟩
    have few : pstat.attrs.length < 2 ^ 32 := by
      rw [← number]
      exact UInt32.toNat_lt _
    rw [decodeDisSvrattrlFrom_encode allocates few small] at sameLater inside
    exact forall_mem_cons.mpr ⟨⟨few, small⟩, ih sameLater (forall_mem_cons.mp inside).2⟩

theorem length_readStatusesSvr_le (chan : TcpChan) :
    (readStatusesSvr platform ct rc chan).items.length ≤ ct := by
  induction ct generalizing rc chan with
  | zero => exact le_rfl
  | succ ct ih =>
    rw [readStatusesSvr]
    split
    · exact Nat.zero_le _
    · exact Nat.succ_le_succ (ih _ _)

end

/-! ## Texts that are too long -/

variable {next chan : TcpChan} {reply : BatchReply} {value : List UInt8}

theorem length_storeString {nullstr : Bool} {initial : List UInt8}
    {count : Nat} (length : initial.length = count)
    (read : storeString nullstr initial chan count = (.ok value, next)) : value.length = count := by
  unfold storeString getString at read
  split at read
  · cases read
  · next stored final got =>
    split at read
    · cases read
    · cases read
      split at got
      · split at got
        · cases got
        · cases got
          exact length
      · next fetched =>
        cases got
        exact (tcpGets_eq_ok_iff_advances.mp fetched).1

theorem length_lt_of_disrcs {platform : Platform}
    (read : disrcs platform chan = (.ok value, next)) : value.length < 2 ^ 32 := by
  unfold disrcs at read
  by_cases negative : (if (disrsi_ chan 1).code = .success ∨ (disrsi_ chan 1).code = .overflow then
      (disrsi_ chan 1).negate else platform.garbage) = true
  · rw [if_pos negative] at read
    cases read
  · rw [if_neg negative] at read
    split at read
    · cases read
    · next success =>
      split at read
      · cases read
      · rw [length_storeString length_replicate read]
        rcases disrsi_success (not_not.mp success) with ⟨item, integer, -⟩
        exact integer.value_lt

/-! ## The replies -/

/-- The contents are read behind the header. -/
theorem decodeReply_append {α : Type} (readUn : Nat → Option (Reader (UnRead α)))
    (reply : BatchReply) (continuation : List UInt8) (ended : StreamEnd) :
    decodeReply readUn ⟨[], encodeDisReply reply ++ continuation, ended⟩ =
      match readUn reply.brpUn.choice.toNat with
      | none => (.error .unknownChoice, ⟨[], encodeUn reply.brpUn ++ continuation, ended⟩)
      | some reader =>
        match reader ⟨[], encodeUn reply.brpUn ++ continuation, ended⟩ with
        | (.error code, chan) => (.error (.dis code), chan)
        | (.ok un, chan) => (.ok ⟨reply.brpCode, reply.brpAuxcode, un⟩, chan) := by
  have header : Reads readHeader
      (diswui pbsBatchProtType ++ (diswui pbsBatchProtVer ++ (diswsi reply.brpCode ++
        (diswsi reply.brpAuxcode ++ diswui reply.brpUn.choice))))
      (reply.brpCode, reply.brpAuxcode, reply.brpUn.choice.toNat) := by
    refine (reads_disrui _).bind ?_
    refine (reads_disrui _).bind ?_
    refine (reads_disrsi _).bind ?_
    refine (reads_disrsi _).bind ?_
    exact (reads_disrui _).bind_pure rfl
  have split : encodeDisReply reply ++ continuation =
      (diswui pbsBatchProtType ++ (diswui pbsBatchProtVer ++ (diswsi reply.brpCode ++
        (diswsi reply.brpAuxcode ++ diswui reply.brpUn.choice)))) ++
          (encodeUn reply.brpUn ++ continuation) := by
    simp only [encodeDisReply, append_assoc]
  have read := header (encodeUn reply.brpUn ++ continuation) ended
  rw [decodeReply, split]
  generalize readHeader _ = result at read ⊢
  subst read
  rfl

variable {α : Type} {readUn : Nat → Option (Reader (UnRead α))}

/-- A decoder that reads the contents back reads the reply back. -/
theorem decodeReply_of_reads {reader : Reader (UnRead α)} {un : UnRead α}
    (known : readUn reply.brpUn.choice.toNat = some reader)
    (reads : Reads reader (encodeUn reply.brpUn) un) (continuation : List UInt8) (ended : StreamEnd)
    : decodeReply readUn ⟨[], encodeDisReply reply ++ continuation, ended⟩ =
      (.ok ⟨reply.brpCode, reply.brpAuxcode, un⟩, ⟨[], continuation, ended⟩) := by
  rw [decodeReply_append, known]
  dsimp only
  rw [reads]

/-- The contents of a reply that is read back are read back. -/
theorem reads_of_decodeReply {read : ReplyRead α} {continuation : List UInt8} {ended : StreamEnd}
    (decoded : decodeReply readUn ⟨[], encodeDisReply reply ++ continuation, ended⟩ =
      (.ok read, next)) :
    ∃ reader, readUn reply.brpUn.choice.toNat = some reader ∧
      reader ⟨[], encodeUn reply.brpUn ++ continuation, ended⟩ = (.ok read.brpUn, next) := by
  rw [decodeReply_append] at decoded
  split at decoded
  · cases decoded
  · next reader known =>
    refine ⟨reader, known, ?_⟩
    split at decoded
    · cases decoded
    · next un final got =>
      cases decoded
      exact got

theorem ofItems_eq_ok {α : Type} {decode : TcpChan → ItemsRead α}
    {items : List α} (read : ofItems decode chan = (.ok items, next)) :
    (decode chan).code = .ok () ∧ (decode chan).items = items := by
  unfold ofItems at read
  dsimp only at read
  cases outcome : (decode chan).code with
  | error code =>
    rw [outcome] at read
    cases read
  | ok done =>
    rw [outcome] at read
    cases read
    exact ⟨rfl, rfl⟩

theorem lt_of_toNat_ofNat_eq {n : Nat} (same : (UInt32.ofNat n).toNat = n) : n < 2 ^ 32 := by
  rw [← same]
  exact UInt32.toNat_lt _

/-- A platform on which every allocation succeeds. -/
def roomy : Platform :=
  ⟨false, fun _ => true, fun _ => 0, false⟩

/-- A reply that both decoders read back is one that the server's decoder knows, and is sized. -/
theorem sized_of_readsBack (cmd : CmdReadsBack reply)
    (svr : SvrReadsBack reply) : reply.brpUn.Sized ∧ reply.brpUn.isRescQuery = false := by
  have allocates : ∀ size, roomy.calloc size = true := fun _ => rfl
  rcases reads_of_decodeReply (cmd roomy allocates [] .closed) with ⟨cmdReader, cmdKnown, cmd⟩
  rcases svr roomy allocates [] .closed with ⟨read, decoded, same, inside⟩
  rcases reads_of_decodeReply decoded with ⟨svrReader, svrKnown, svr⟩
  have sameUn : read.brpUn.map Svrattrl.shown = reply.brpUn.shown :=
    congrArg ReplyRead.brpUn same
  cases kind : reply.brpUn with
  | null => exact ⟨trivial, rfl⟩
  | queue jid => exact ⟨trivial, rfl⟩
  | rdytoCom jid => exact ⟨trivial, rfl⟩
  | commit jid => exact ⟨trivial, rfl⟩
  | locate dest => exact ⟨trivial, rfl⟩
  | select jobids =>
    refine ⟨lt_of_toNat_ofNat_eq ?_, rfl⟩
    rw [BatchReply.shown, kind] at cmd
    rw [kind] at cmdKnown
    cases cmdKnown
    rcases Reader.bind_eq_ok_iff.mp cmd with ⟨items, middle, got, result⟩
    rcases ofItems_eq_ok got with ⟨success, shown⟩
    rw [encodeUn, readCounted_append] at success shown
    cases result
    have length := length_items_of_readItems success
    rw [shown, length_map] at length
    exact length.symm
  | status objects =>
    rw [kind] at svrKnown svr sameUn
    cases svrKnown
    rcases Reader.bind_eq_ok_iff.mp svr with ⟨statuses, middle, got, result⟩
    rcases ofItems_eq_ok got with ⟨-, shown⟩
    rw [encodeUn, readStatusSvr_append] at shown
    have un : .status statuses = read.brpUn := Except.ok.inj (Prod.mk.inj result).1
    rw [← un] at sameUn inside
    have sameStatuses := UnRead.status.inj sameUn
    rw [← shown] at sameStatuses
    have number : (UInt32.ofNat objects.length).toNat = objects.length := by
      apply le_antisymm
      · exact Nat.mod_le _ _
      · have length := congrArg length sameStatuses
        rw [length_map, length_map] at length
        exact length.symm.trans_le (length_readStatusesSvr_le _ _ _)
    rw [number] at shown sameStatuses
    refine ⟨⟨lt_of_toNat_ofNat_eq number, fun pstat mem => ?_⟩, rfl⟩
    refine BrpStatus.attrs_fit.mpr (fit_of_readStatusesSvr allocates sameStatuses ?_ pstat mem)
    rw [shown]
    intro status among entry within
    exact inside entry (mem_flatMap.mpr ⟨status, among, within⟩)
  | text str =>
    refine ⟨?_, rfl⟩
    rw [BatchReply.shown, kind] at cmd
    rw [kind] at cmdKnown
    cases cmdKnown
    rcases Reader.bind_eq_ok_iff.mp cmd with ⟨value, middle, got, result⟩
    cases result
    exact length_lt_of_disrcs got
  | rescQuery rescq =>
    rw [kind] at svrKnown
    cases svrKnown

/-- Both decoders read a reply back if it is not the reply to a resource query, its numbers and
lengths are `unsigned int`s, and its attributes fit.  The reply to a resource query is read back by
`decode_DIS_replyCmd` alone. -/
theorem replies_read_back_iff (reply : BatchReply) :
    (CmdReadsBack reply ∧ SvrReadsBack reply ↔
      reply.brpUn.isRescQuery = false ∧ reply.brpUn.Sized) ∧
    (reply.brpUn.isRescQuery = true → CmdReadsBack reply) := by
  have cmd : reply.brpUn.Sized → CmdReadsBack reply := by
    intro sized platform allocates continuation ended
    rcases reads_readUnCmd allocates sized with ⟨reader, known, reads⟩
    exact decodeReply_of_reads known reads continuation ended
  constructor
  · constructor
    · rintro ⟨byCmd, bySvr⟩
      exact (sized_of_readsBack byCmd bySvr).symm
    · rintro ⟨known, sized⟩
      refine ⟨cmd sized, fun platform allocates continuation ended => ?_⟩
      rcases reads_readUnSvr allocates sized known with ⟨reader, value, choice, reads, same, inside⟩
      refine ⟨⟨reply.brpCode, reply.brpAuxcode, value⟩, ?_, ?_, inside⟩
      · exact decodeReply_of_reads choice reads continuation ended
      · rw [BatchReply.shown, ← same]
        rfl
  · intro query
    apply cmd
    cases kind : reply.brpUn with
    | rescQuery rescq => trivial
    | _ =>
      rw [kind] at query
      cases query

/-- A reply to a query for two resources. -/
def twoResources : BatchReply :=
  ⟨0, 0, .rescQuery ⟨[⟨8, 2, 0, 1⟩, ⟨-1, 0, 3, 0⟩], by decide⟩⟩

theorem replies_read_back_twoResources :
    twoResources.brpUn.isRescQuery = true ∧ CmdReadsBack twoResources :=
  ⟨rfl, (replies_read_back_iff twoResources).2 rfl⟩

/-- `decode_DIS_replySvr` does not know the reply to a resource query. -/
theorem query_reply_unknown :
    ¬ ∀ reply : BatchReply, CmdReadsBack reply ∧ SvrReadsBack reply := by
  intro readsBack
  rcases (readsBack twoResources).2 roomy (fun _ => rfl) [] .closed with ⟨read, decoded, -⟩
  rcases reads_of_decodeReply decoded with ⟨reader, known, -⟩
  cases known

/-! ## Status replies that are accepted -/

section

variable (platform : Platform)

/-- What is returned for the objects of a status reply, one after the other. -/
def objectCodes (platform : Platform) : Nat → TcpChan → List (Except DisCode Unit)
  | 0, _ => []
  | ct + 1, chan =>
    match readStatusHead platform chan with
    | (.error code, _) => [.error code]
    | (.ok _, chan) =>
      let attrs := decodeDisSvrattrlFrom platform.calloc chan
      attrs.code :: objectCodes platform ct attrs.chan

/-- What is returned for the number of the objects and for the objects behind the header. -/
def statusCodes (chan : TcpChan) : List (Except DisCode Unit) :=
  match disrui (readHeader chan).2 with
  | (.error code, _) => [.error code]
  | (.ok ct, chan) => objectCodes platform ct chan

/-- The entries of that many objects, as they stand on the wire. -/
def wireStatuses (platform : Platform) : Nat → Reader (List WireEntry)
  | 0 => pure []
  | ct + 1 => do
    let _ ← readStatusHead platform
    let wires ← wireMessage
    let later ← wireStatuses platform ct
    pure (wires ++ later)

variable {platform} {chan next : TcpChan} {reply : ReplyRead Svrattrl}
  {objects : List (StatusRead Svrattrl)} {calloc : Nat → Bool}

/-- Entries are decoded iff they stand on the wire and are accepted. -/
theorem readItems_decodeEntry_iff {count : Nat} :
    let read := readItems (decodeEntry calloc) count chan
    (∀ wires next, wireEntries count chan = (.ok wires, next) →
      (∀ wire ∈ wires, wire.Accepted calloc) → read.code = .ok ()) ∧
    (read.code = .ok () → ∃ wires, wireEntries count chan = (.ok wires, read.chan) ∧
      ∀ wire ∈ wires, wire.Accepted calloc) := by
  induction count generalizing chan with
  | zero => exact ⟨fun _ _ _ _ => rfl, fun _ => ⟨[], rfl, forall_mem_nil _⟩⟩
  | succ count ih =>
    dsimp only at ih ⊢
    constructor
    · intro wires next wired accepted
      obtain ⟨wire, middle, first, wired⟩ := Reader.bind_eq_ok_iff.mp wired
      obtain ⟨later, final, wired, result⟩ := Reader.bind_eq_ok_iff.mp wired
      cases result
      obtain ⟨here, behind⟩ := forall_mem_cons.mp accepted
      obtain ⟨entry, decoded⟩ := here.decoded first
      rw [readItems, decoded]
      exact ih.1 later next wired behind
    · intro success
      rw [readItems] at success ⊢
      rcases decoded : decodeEntry calloc chan with ⟨code | entry, middle⟩
      · rw [decoded] at success
        cases success
      · rw [decoded] at success
        obtain ⟨wire, first, decodes⟩ := decodeEntry_decodes decoded
        obtain ⟨later, wired, accepted⟩ := ih.2 success
        refine ⟨wire :: later, ?_, forall_mem_cons.mpr ⟨decodes.accepted, accepted⟩⟩
        refine Reader.bind_eq_ok_iff.mpr ⟨_, _, first, ?_⟩
        exact Reader.bind_eq_ok_iff.mpr ⟨_, _, wired, rfl⟩

/-- An attribute list is decoded iff it stands whole on the wire and its entries are accepted. -/
theorem decodeDisSvrattrlFrom_iff :
    let read := decodeDisSvrattrlFrom calloc chan
    (∀ wires next, wireMessage chan = (.ok wires, next) →
      (∀ wire ∈ wires, wire.Accepted calloc) → read.code = .ok ()) ∧
    (read.code = .ok () → ∃ wires, wireMessage chan = (.ok wires, read.chan) ∧
      ∀ wire ∈ wires, wire.Accepted calloc) := by
  dsimp only
  unfold decodeDisSvrattrlFrom readCounted
  rcases count : disrui chan with ⟨code | count, middle⟩
  · refine ⟨fun wires next wired => ?_, nofun⟩
    obtain ⟨_, _, first, -⟩ := Reader.bind_eq_ok_iff.mp wired
    rw [count] at first
    cases first
  · refine ⟨fun wires next wired => ?_, fun success => ?_⟩
    · obtain ⟨_, _, first, wired⟩ := Reader.bind_eq_ok_iff.mp wired
      rw [count] at first
      cases first
      exact readItems_decodeEntry_iff.1 wires next wired
    · obtain ⟨wires, wired, accepted⟩ := readItems_decodeEntry_iff.2 success
      exact ⟨wires, Reader.bind_eq_ok_iff.mpr ⟨_, _, count, wired⟩, accepted⟩

/-- If the loop over the objects succeeds, the last object was decoded, and the others were if
they stand whole on the wire. -/
theorem objectCodes_ok_iff {ct : Nat} {rc : Except DisCode Unit}
    (success : (readStatusesSvr platform (ct + 1) rc chan).code = .ok ()) :
    (∀ code ∈ objectCodes platform (ct + 1) chan, code = .ok ()) ↔
      ∃ wires next, wireStatuses platform ct chan = (.ok wires, next) ∧
        ∀ wire ∈ wires, wire.Accepted platform.calloc := by
  induction ct generalizing chan rc with
  | zero =>
    rw [objectCodes]
    rw [readStatusesSvr] at success
    rcases head : readStatusHead platform chan with ⟨code | read, behind⟩
    · rw [head] at success
      cases success
    · rw [head] at success
      exact ⟨fun _ => ⟨[], chan, rfl, forall_mem_nil _⟩, fun _ => forall_mem_singleton.mpr success⟩
  | succ ct ih =>
    rw [objectCodes]
    rw [readStatusesSvr] at success
    rcases head : readStatusHead platform chan with ⟨code | read, behind⟩
    · rw [head] at success
      cases success
    · rw [head] at success
      dsimp only at success ⊢
      rw [forall_mem_cons, ih success]
      constructor
      · rintro ⟨here, later, next, wired, accepted⟩
        obtain ⟨wires, listed, first⟩ := decodeDisSvrattrlFrom_iff.2 here
        refine ⟨wires ++ later, next, ?_, forall_mem_append.mpr ⟨first, accepted⟩⟩
        refine Reader.bind_eq_ok_iff.mpr ⟨_, _, head, ?_⟩
        refine Reader.bind_eq_ok_iff.mpr ⟨_, _, listed, ?_⟩
        exact Reader.bind_eq_ok_iff.mpr ⟨_, _, wired, rfl⟩
      · rintro ⟨wires, next, wired, accepted⟩
        obtain ⟨_, _, headAgain, wired⟩ := Reader.bind_eq_ok_iff.mp wired
        rw [head] at headAgain
        cases headAgain
        obtain ⟨first, middle, listed, wired⟩ := Reader.bind_eq_ok_iff.mp wired
        obtain ⟨later, final, wired, result⟩ := Reader.bind_eq_ok_iff.mp wired
        cases result
        obtain ⟨here, behind⟩ := forall_mem_append.mp accepted
        have decoded := decodeDisSvrattrlFrom_iff.1 first middle listed here
        obtain ⟨_, same, -⟩ := decodeDisSvrattrlFrom_iff.2 decoded
        rw [listed] at same
        cases same
        exact ⟨decoded, later, next, wired, behind⟩

/-- A status reply is read by the loop over its objects. -/
theorem readStatusSvr_of_accepted
    (accepted : decodeDisReplySvr platform chan = (.ok reply, next))
    (status : reply.brpUn = .status objects) :
    (readStatusSvr platform (readHeader chan).2).code = .ok () ∧
      (readStatusSvr platform (readHeader chan).2).items = objects := by
  unfold decodeDisReplySvr decodeReply at accepted
  split at accepted
  · cases accepted
  · next header =>
    rw [header]
    split at accepted
    · cases accepted
    · next reader known =>
      split at accepted
      · cases accepted
      · next un final got =>
        cases accepted
        obtain rfl : un = .status objects := status
        unfold readUnSvr at known
        split at known <;> cases known
        case h_1 => cases got
        all_goals
          obtain ⟨read, middle, reads, result⟩ := Reader.bind_eq_ok_iff.mp got
          cases result
        exact ofItems_eq_ok reads

/-- In a status reply that `decode_DIS_replySvr` accepts all objects were decoded without error
iff those but the last stand on the wire with attribute lists whose strings the announced lengths
let pass. -/
theorem accepted_statuses_decoded_iff
    (accepted : decodeDisReplySvr platform chan = (.ok reply, next))
    (status : reply.brpUn = .status objects) :
    (∀ code ∈ statusCodes platform chan, code = .ok ()) ↔
      ∃ ct behind wires final, disrui (readHeader chan).2 = (.ok ct, behind) ∧
        wireStatuses platform (ct - 1) behind = (.ok wires, final) ∧
        ∀ wire ∈ wires, wire.Accepted platform.calloc := by
  have read := (readStatusSvr_of_accepted accepted status).1
  unfold readStatusSvr at read
  unfold statusCodes
  rcases number : disrui (readHeader chan).2 with ⟨error | ct, behind⟩
  · rw [number] at read
    cases read
  · rw [number] at read
    cases ct with
    | zero =>
      exact iff_of_true (forall_mem_nil _) ⟨0, behind, [], behind, rfl, rfl, forall_mem_nil _⟩
    | succ ct =>
      dsimp only at read ⊢
      rw [objectCodes_ok_iff read]
      constructor
      · rintro ⟨wires, final, wired, accepted⟩
        exact ⟨ct + 1, behind, wires, final, rfl, wired, accepted⟩
      · rintro ⟨_, _, wires, final, ⟨⟩, wired, accepted⟩
        exact ⟨wires, final, wired, accepted⟩

end

/-- A reply with two objects, the first of which has the attribute `a=b`. -/
theorem accepted_statuses_decoded_two :
    let chan : TcpChan := ⟨[], [43, 50, 43, 50, 43, 48, 43, 48, 43, 54, 43, 50, 43, 48, 43, 48, 43,
      49, 43, 52, 43, 49, 97, 43, 48, 43, 49, 98, 43, 48, 43, 48, 43, 48, 43, 48], .closed⟩
    (statusCodes roomy chan).length = 2 ∧ ∀ code ∈ statusCodes roomy chan, code = .ok () := by
  refine ⟨rfl, (accepted_statuses_decoded_iff rfl rfl).mpr
    ⟨2, _, [⟨4, 1, none, 1⟩], _, rfl, rfl, forall_mem_singleton.mpr ?_⟩⟩
  exact ⟨rfl, by decide, by decide, by decide⟩

/-- In a reply with two objects the name of an attribute of the first one is longer than was
announced.  Its length is taken for the type of the second one, and the reply is accepted. -/
theorem cut_attributes_accepted :
    ¬ ∀ platform chan reply next objects,
      decodeDisReplySvr platform chan = (.ok reply, next) → reply.brpUn = .status objects →
      ∀ code ∈ statusCodes platform chan, code = .ok () := by
  intro always
  have codes := always roomy ⟨[], [43, 50, 43, 50, 43, 48, 43, 48, 43, 54, 43, 50, 43, 48, 43, 48,
    43, 49, 43, 49, 43, 50, 43, 48, 43, 48], .closed⟩ _ _ _ rfl rfl
  exact absurd codes (by decide)

end Torque.Dis
