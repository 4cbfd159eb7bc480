import Torque.Dis.Strings

/-!
# Lists of attributes on the wire

`encode_DIS_svrattrl` and `encode_DIS_attropl` write a list of attributes, each of which may have a
resource, as a count and one entry after the other.  Each entry tells the length of its strings in
front.  `decode_DIS_svrattrl`, `decode_DIS_attropl` and `decode_DIS_attrl` read the list into
structures of their own; only the first one makes use of the lengths.

An `attropl` may lack a name.  It is counted, but not written.
-/

namespace Torque.Dis

open List

/-! ## The encoders -/

/-- `attropl`. -/
structure Attropl where
  name : Option CString
  resource : Option CString
  value : Option CString
  op : UInt32
  deriving DecidableEq

/-- What is encoded of a `svrattrl`. -/
structure SvrattrlSent where
  alName : CString
  alResc : Option CString
  alValue : CString
  alOp : UInt32
  deriving DecidableEq

/-- The length of a string with its terminator, and 0 without a string. -/
def lengthWith (string : Option CString) : Nat :=
  rescLen (string.map (·.1))

/-- The resource of an entry, with the flag that announces it. -/
def encodeResource : Option CString → List UInt8
  | none => diswui 0
  | some resource => diswui 1 ++ diswst resource

/-- The bytes of an entry.  The length in front is computed as an `unsigned int`. -/
def encodeEntry (nameLen : Nat) (name : CString) (resource : Option CString) (value : CString)
    (op : UInt32) : List UInt8 :=
  diswui (.ofNat nameLen) ++ (diswst name ++ (encodeResource resource ++
    (diswst value ++ diswui op)))

/-- The empty string. -/
def emptyString : CString :=
  ⟨[], not_mem_nil⟩

/-- `name_len` in `encode_DIS_attropl`. -/
def nameLen (name : CString) (resource value : Option CString) : Nat :=
  name.1.length + 1 + lengthWith value + lengthWith resource

/-- The body of the loop of `encode_DIS_attropl`. -/
def encodeAttropl (attr : Attropl) : List UInt8 :=
  match attr.name with
  | none => []
  | some name =>
    encodeEntry (nameLen name attr.resource attr.value) name attr.resource
      (attr.value.getD emptyString) attr.op

/-- `encode_DIS_attropl`: what it hands to `tcp_puts`. -/
def encodeDisAttropl (attrs : List Attropl) : List UInt8 :=
  diswui (.ofNat attrs.length) ++ attrs.flatMap encodeAttropl

/-- The body of the loop of `encode_DIS_svrattrl`. -/
def encodeSvrattrl (attr : SvrattrlSent) : List UInt8 :=
  encodeEntry (attr.alName.1.length + attr.alValue.1.length + 2 + lengthWith attr.alResc)
    attr.alName attr.alResc attr.alValue attr.alOp

/-- `encode_DIS_svrattrl`: what it hands to `tcp_puts`. -/
def encodeDisSvrattrl (attrs : List SvrattrlSent) : List UInt8 :=
  diswui (.ofNat attrs.length) ++ attrs.flatMap encodeSvrattrl

/-! ## The decoders -/

/-- An `attropl` as it is decoded. -/
structure AttroplRead where
  name : List UInt8
  resource : Option (List UInt8)
  value : List UInt8
  op : Nat
  deriving DecidableEq

/-- `attrl`. -/
structure Attrl where
  name : List UInt8
  resource : Option (List UInt8)
  value : List UInt8
  deriving DecidableEq

/-- `sizeof(attropl)` and `sizeof(attrl)` on an LP64 platform. -/
def sizeofAttropl : Nat := 40

section

variable (platform : Platform)

/-- The resource that `hasresc` announces. -/
def readResource : Reader (Option (List UInt8)) := do
  let hasresc ← disrui
  if hasresc = 0 then
    pure none
  else
    let resource ← disrst platform
    pure (some resource)

/-- The body of the loops of `decode_DIS_attropl` and `decode_DIS_attrl`. -/
def readAttropl : Reader AttroplRead := do
  let _ ← disrui
  if platform.calloc sizeofAttropl = false then
    Reader.fail .nomalloc
  else
    let name ← disrst platform
    let resource ← readResource platform
    let value ← disrst platform
    let op ← disrui
    pure ⟨name, resource, value, op⟩

/-- `decode_DIS_attropl`. -/
def decodeDisAttropl : TcpChan → ItemsRead AttroplRead :=
  readCounted (readAttropl platform)

/-- An `attrl` has no `op`. -/
def AttroplRead.toAttrl (attr : AttroplRead) : Attrl :=
  ⟨attr.name, attr.resource, attr.value⟩

/-- The body of the loop of `decode_DIS_attrl`, which discards the `op`. -/
def readAttrl : Reader Attrl := do
  let attr ← readAttropl platform
  pure attr.toAttrl

/-- `decode_DIS_attrl`. -/
def decodeDisAttrl : TcpChan → ItemsRead Attrl :=
  readCounted (readAttrl platform)

end

/-- `decode_DIS_svrattrl`, with the channel as it leaves it. -/
def decodeDisSvrattrlFrom (calloc : Nat → Bool) : TcpChan → ItemsRead Svrattrl :=
  readCounted (decodeEntry calloc)

theorem decodeEntries_eq (calloc : Nat → Bool) (count : Nat) (chan : TcpChan) :
    decodeEntries calloc count chan =
      ((readItems (decodeEntry calloc) count chan).code,
        (readItems (decodeEntry calloc) count chan).items) := by
  induction count generalizing chan with
  | zero => rfl
  | succ count ih =>
    rw [decodeEntries, readItems]
    cases decodeEntry calloc chan with
    | mk outcome next =>
      cases outcome with
      | error code => rfl
      | ok entry =>
        dsimp only
        rw [ih]

/-- The two models of `decode_DIS_svrattrl` agree. -/
theorem decodeDisSvrattrl_eq (calloc : Nat → Bool) (chan : TcpChan) :
    decodeDisSvrattrl calloc chan =
      ((decodeDisSvrattrlFrom calloc chan).code, (decodeDisSvrattrlFrom calloc chan).items) := by
  unfold decodeDisSvrattrl decodeDisSvrattrlFrom readCounted
  cases disrui chan with
  | mk outcome next =>
    cases outcome with
    | error code => rfl
    | ok count => exact decodeEntries_eq calloc count next

/-! ## What is to be read back -/

/-- An attribute that has a name, with the value that is read for it. -/
structure NamedAttr where
  name : CString
  resource : Option CString
  value : Option CString
  op : UInt32

/-- The attribute, if it has a name. -/
def Attropl.named (attr : Attropl) : Option NamedAttr :=
  attr.name.map fun name => ⟨name, attr.resource, attr.value, attr.op⟩

namespace NamedAttr

variable (attr : NamedAttr)

/-- What is read for the attribute: a missing value is read as an empty one. -/
def shown : AttroplRead :=
  ⟨attr.name.1, attr.resource.map (·.1), (attr.value.getD emptyString).1, attr.op.toNat⟩

/-- The length of its strings, with their terminators. -/
def length : Nat :=
  nameLen attr.name attr.resource attr.value

/-- The length of the strings is an `unsigned int`, and those of name and resource are `int`s. -/
structure Fits : Prop where
  length : attr.length < 2 ^ 32
  name : attr.name.1.length + 1 < 2 ^ 31
  resource : lengthWith attr.resource < 2 ^ 31

/-- The entry as `encode_DIS_svrattrl` writes it. -/
def encode : List UInt8 :=
  encodeEntry attr.length attr.name attr.resource (attr.value.getD emptyString) attr.op

end NamedAttr

/-- What the caller of `decode_DIS_svrattrl` finds in an entry. -/
def Svrattrl.shown (entry : Svrattrl) : AttroplRead :=
  ⟨entry.alName, entry.alResc, entry.alValue, entry.alOp⟩

/-- From these bytes all three decoders read these attributes, whatever follows, and stop behind
them.  The strings of a `svrattrl` lie in the block that is allocated for it. -/
structure DecodesTo (bytes : List UInt8) (attrs : List AttroplRead) : Prop where
  svrattrl : ∀ (calloc : Nat → Bool), (∀ size, calloc size = true) → ∀ continuation ended,
    ∃ entries, decodeDisSvrattrlFrom calloc ⟨[], bytes ++ continuation, ended⟩ =
        ⟨.ok (), entries, ⟨[], continuation, ended⟩⟩ ∧
      entries.map Svrattrl.shown = attrs ∧ ∀ entry ∈ entries, entry.InsideBlock
  attropl : ∀ (platform : Platform), (∀ size, platform.calloc size = true) →
    ∀ continuation ended, decodeDisAttropl platform ⟨[], bytes ++ continuation, ended⟩ =
      ⟨.ok (), attrs, ⟨[], continuation, ended⟩⟩
  attrl : ∀ (platform : Platform), (∀ size, platform.calloc size = true) →
    ∀ continuation ended, decodeDisAttrl platform ⟨[], bytes ++ continuation, ended⟩ =
      ⟨.ok (), attrs.map AttroplRead.toAttrl, ⟨[], continuation, ended⟩⟩

/-! ## One entry -/

section

variable {attr : NamedAttr} {platform : Platform} {resource : Option CString} {calloc : Nat → Bool}
  {continuation : List UInt8} {ended : StreamEnd} {entry : Svrattrl} {next : TcpChan}

theorem NamedAttr.short (small : attr.length < 2 ^ 32) :
    attr.name.1.length < 2 ^ 32 ∧ (∀ resource ∈ attr.resource, resource.1.length < 2 ^ 32) ∧
      (attr.value.getD emptyString).1.length < 2 ^ 32 := by
  rcases attr with ⟨name, resource, value, op⟩
  unfold NamedAttr.length nameLen at small
  dsimp only at small ⊢
  refine ⟨by omega, ?_, ?_⟩
  · rintro resource ⟨⟩
    have length : lengthWith (some resource) = resource.1.length + 1 := rfl
    omega
  · cases value with
    | none => exact Nat.two_pow_pos 32
    | some value =>
      have length : lengthWith (some value) = value.1.length + 1 := rfl
      dsimp only [Option.getD_some]
      omega

section

variable (allocates : ∀ size, platform.calloc size = true)
include allocates

theorem reads_readResource (short : ∀ string ∈ resource, string.1.length < 2 ^ 32) :
    Reads (readResource platform) (encodeResource resource) (resource.map (·.1)) := by
  cases resource with
  | none => exact (reads_disrui 0).bind_pure rfl
  | some string =>
    refine (reads_disrui 1).bind ?_
    exact (reads_disrst platform allocates (short string rfl) string.2).bind_pure rfl

variable (small : attr.length < 2 ^ 32)
include small

theorem reads_readAttropl : Reads (readAttropl platform) attr.encode attr.shown := by
  rcases NamedAttr.short small with ⟨name, resource, value⟩
  refine (reads_disrui _).bind ?_
  rw [if_neg (by rw [allocates]; nofun)]
  refine (reads_disrst platform allocates name attr.name.2).bind ?_
  refine (reads_readResource allocates resource).bind ?_
  refine (reads_disrst platform allocates value (attr.value.getD emptyString).2).bind ?_
  exact (reads_disrui _).bind_pure rfl

theorem reads_readAttrl : Reads (readAttrl platform) attr.encode attr.shown.toAttrl :=
  (reads_readAttropl allocates small).bind_pure rfl

end

/-- The room that the lengths of the strings leave behind the name and the resource. -/
theorem lengthWith_value_le (value : Option CString) :
    (value.getD emptyString).1.length ≤ lengthWith value ∧
      lengthWith value ≤ (value.getD emptyString).1.length + 1 := by
  cases value with
  | none => exact ⟨le_rfl, Nat.zero_le _⟩
  | some value => exact ⟨Nat.le_succ _, le_rfl⟩

theorem reads_readResc {room : Nat} (short : room + lengthWith resource < 2 ^ 32) :
    Reads (readResc (room + lengthWith resource)) (encodeResource resource)
      (resource.map (·.1), room) := by
  cases resource with
  | none => exact (reads_disrui 0).bind_pure rfl
  | some string =>
    have length : lengthWith (some string) = string.1.length + 1 := rfl
    rw [length] at short ⊢
    refine (reads_disrui 1).bind ?_
    refine (reads_disrfcs (by omega) (by omega)).bind_pure ?_
    rw [subUnsigned_of_lt short (by omega), Nat.add_sub_cancel]
    rfl

/-- The entry that `decode_DIS_svrattrl` makes of an attribute. -/
def NamedAttr.decoded (attr : NamedAttr) : Svrattrl where
  announced := attr.length
  alName := attr.shown.name
  alResc := attr.shown.resource
  alValue := attr.shown.value
  alValueAt := toCInt (attr.shown.name.length + 1) + toCInt (rescLen attr.shown.resource)
  alTsize := toCInt (sizeofSvrattrl + attr.length + 2)
  alNameln := toCInt (attr.shown.name.length + 1)
  alRescln := toCInt (rescLen attr.shown.resource)
  alValln := toCInt (attr.shown.value.length + 1)
  alOp := attr.shown.op

theorem reads_decodeEntry (allocates : ∀ size, calloc size = true) (small : attr.length < 2 ^ 32) :
    Reads (decodeEntry calloc) attr.encode attr.decoded := by
  rcases NamedAttr.short small with ⟨name, -, value⟩
  have announced := UInt32.toNat_ofNat_of_lt' small
  have positive : max 1 attr.length = attr.length :=
    Nat.max_eq_right (by unfold NamedAttr.length nameLen; omega)
  have sum : attr.length =
      attr.name.1.length + 1 + (lengthWith attr.value + lengthWith attr.resource) :=
    Nat.add_assoc _ _ _
  have room : subUnsigned attr.length (attr.name.1.length + 1) =
      lengthWith attr.value + lengthWith attr.resource := by
    rw [subUnsigned_of_lt small (by omega), sum, Nat.add_sub_cancel_left]
  refine (reads_disrui _).bind ?_
  rw [announced, positive]
  rw [if_neg (by rw [allocates]; nofun)]
  refine (reads_disrfcs name (by omega)).bind ?_
  rw [room]
  refine (reads_readResc (by omega)).bind ?_
  refine (reads_disrfcs value (lengthWith_value_le attr.value).1).bind ?_
  exact (reads_disrui _).bind_pure rfl

theorem NamedAttr.measured (attr : NamedAttr) : attr.decoded.Measured :=
  ⟨rfl, rfl, rfl, rfl⟩

/-- The strings of an entry that fits lie in its block. -/
theorem NamedAttr.Fits.insideBlock (fits : attr.Fits) : attr.decoded.InsideBlock := by
  have value := (lengthWith_value_le attr.value).1
  refine attr.measured.insideBlock_iff.mpr ⟨⟨fits.name, fits.resource⟩, ?_⟩
  change attr.name.1.length + 1 + lengthWith attr.resource +
    ((attr.value.getD emptyString).1.length + 1) ≤ nameLen _ _ _ + 2
  unfold nameLen
  omega

variable (decoded : decodeEntry calloc ⟨[], attr.encode ++ continuation, ended⟩ = (.ok entry, next))
include decoded

theorem announced_of_decodeEntry :
    entry.announced = max 1 (attr.length % 2 ^ 32) ∧ entry.Measured := by
  rcases Reader.bind_eq_ok_iff.mp decoded with ⟨announced, middle, first, decoded⟩
  rw [NamedAttr.encode, encodeEntry, append_assoc, reads_disrui] at first
  cases first
  split at decoded
  · cases decoded
  · rcases Reader.bind_eq_ok_iff.mp decoded with ⟨name, _, -, decoded⟩
    rcases Reader.bind_eq_ok_iff.mp decoded with ⟨⟨resc, room⟩, _, -, decoded⟩
    rcases Reader.bind_eq_ok_iff.mp decoded with ⟨value, _, -, decoded⟩
    rcases Reader.bind_eq_ok_iff.mp decoded with ⟨op, _, -, decoded⟩
    cases decoded
    exact ⟨rfl, rfl, rfl, rfl, rfl⟩

/-- An entry whose strings are read back, and lie in its block, fits. -/
theorem fits_of_decodeEntry (same : entry.shown = attr.shown) (inside : entry.InsideBlock) :
    attr.Fits := by
  rcases announced_of_decodeEntry decoded with ⟨announced, measured⟩
  rcases measured.insideBlock_iff.mp inside with ⟨⟨name, resource⟩, extent⟩
  have nameSame : entry.alName = attr.name.1 := congrArg AttroplRead.name same
  have resourceSame : rescLen entry.alResc = lengthWith attr.resource :=
    congrArg (fun shown => rescLen shown.resource) same
  have valueSame : entry.alValue = (attr.value.getD emptyString).1 :=
    congrArg AttroplRead.value same
  rw [announced, Svrattrl.namesEnd, nameSame, resourceSame, valueSame] at extent
  have value := (lengthWith_value_le attr.value).2
  have sum : attr.length =
      attr.name.1.length + 1 + lengthWith attr.value + lengthWith attr.resource := rfl
  exact ⟨by omega, nameSame ▸ name, resourceSame ▸ resource⟩

end

/-! ## Lists -/

section

variable {attrs : List NamedAttr} {calloc : Nat → Bool} {continuation : List UInt8}
  {ended : StreamEnd} {count : UInt32}

/-- A list whose entries are read back has no entry that is too long. -/
theorem fits_of_readItems (allocates : ∀ size, calloc size = true)
    (same : (readItems (decodeEntry calloc) attrs.length
      ⟨[], attrs.flatMap NamedAttr.encode ++ continuation, ended⟩).items.map Svrattrl.shown =
        attrs.map NamedAttr.shown)
    (inside : ∀ entry ∈ (readItems (decodeEntry calloc) attrs.length
      ⟨[], attrs.flatMap NamedAttr.encode ++ continuation, ended⟩).items, entry.InsideBlock) :
    ∀ attr ∈ attrs, attr.Fits := by
  induction attrs with
  | nil => exact forall_mem_nil _
  | cons attr attrs ih =>
    have all := congrArg length same
    rw [length_map, length_map] at all
    have success := code_of_length_items all.ge
    rw [length_cons, flatMap_cons, append_assoc] at success same inside
    rcases readItems_succ success with ⟨entry, next, read, items⟩
    rw [items, map_cons, map_cons] at same
    rw [items] at inside
    rcases cons.inj same with ⟨sameHere, sameLater⟩
    have fits := fits_of_decodeEntry read sameHere (inside entry mem_cons_self)
    rw [reads_decodeEntry allocates fits.length] at read
    cases read
    exact forall_mem_cons.mpr ⟨fits, ih sameLater (forall_mem_cons.mp inside).2⟩

/-- A list that `decode_DIS_svrattrl` reads back is counted right, and has no entry that is too
long. -/
theorem fits_of_decodeDisSvrattrlFrom (allocates : ∀ size, calloc size = true)
    (few : count.toNat ≤ attrs.length)
    (same : (decodeDisSvrattrlFrom calloc
      ⟨[], diswui count ++ attrs.flatMap NamedAttr.encode ++ continuation, ended⟩).items.map
        Svrattrl.shown = attrs.map NamedAttr.shown)
    (inside : ∀ entry ∈ (decodeDisSvrattrlFrom calloc
      ⟨[], diswui count ++ attrs.flatMap NamedAttr.encode ++ continuation, ended⟩).items,
        entry.InsideBlock) : count.toNat = attrs.length ∧ ∀ attr ∈ attrs, attr.Fits := by
  rw [decodeDisSvrattrlFrom, readCounted_append] at same inside
  have all := congrArg length same
  rw [length_map, length_map] at all
  have number : count.toNat = attrs.length := by
    rw [← all]
    exact (length_items_of_readItems (code_of_length_items (few.trans all.ge))).symm
  rw [number] at same inside
  exact ⟨number, fits_of_readItems allocates same inside⟩

/-- A list is read back by all decoders if its entries are counted right, and are not too long. -/
theorem decodesTo_iff :
    DecodesTo (diswui count ++ attrs.flatMap NamedAttr.encode) (attrs.map NamedAttr.shown) ↔
      count.toNat = attrs.length ∧ ∀ attr ∈ attrs, attr.Fits := by
  constructor
  · intro decodes
    have allocates : ∀ size : Nat, (fun _ : Nat => true) size = true := fun _ => rfl
    rcases decodes.svrattrl _ allocates [] .closed with ⟨entries, read, same, inside⟩
    have success : _ = Except.ok () := congrArg ItemsRead.code read
    have items : _ = entries := congrArg ItemsRead.items read
    rw [← items] at same inside
    refine fits_of_decodeDisSvrattrlFrom allocates ?_ same inside
    have length := congrArg length same
    rw [decodeDisSvrattrlFrom, readCounted_append] at length success
    rw [length_map, length_map, length_items_of_readItems success] at length
    exact length.le
  · rintro ⟨number, fits⟩
    have small : ∀ attr ∈ attrs, attr.length < 2 ^ 32 := fun attr mem => (fits attr mem).length
    constructor
    · intro calloc allocates continuation ended
      refine ⟨attrs.map NamedAttr.decoded, ?_, ?_, ?_⟩
      · rw [decodeDisSvrattrlFrom, readCounted_append, number]
        exact readItems_flatMap (fun attr mem => reads_decodeEntry allocates (small attr mem))
          continuation ended
      · rw [map_map]
        rfl
      · intro entry mem
        rcases mem_map.mp mem with ⟨attr, among, rfl⟩
        exact (fits attr among).insideBlock
    · intro platform allocates continuation ended
      rw [decodeDisAttropl, readCounted_append, number]
      exact readItems_flatMap (fun attr mem => reads_readAttropl allocates (small attr mem))
        continuation ended
    · intro platform allocates continuation ended
      rw [decodeDisAttrl, readCounted_append, number, map_map]
      exact readItems_flatMap (fun attr mem => reads_readAttrl allocates (small attr mem))
        continuation ended

end

/-! ## The encoders -/

theorem flatMap_encodeAttropl (attrs : List Attropl) :
    attrs.flatMap encodeAttropl = (attrs.filterMap Attropl.named).flatMap NamedAttr.encode := by
  induction attrs with
  | nil => rfl
  | cons attr attrs ih =>
    rcases attr with ⟨name, resource, value, op⟩
    cases name with
    | none => exact ih
    | some name =>
      rw [flatMap_cons, ih]
      rfl

/-- A `svrattrl` has a name and a value. -/
def SvrattrlSent.named (attr : SvrattrlSent) : NamedAttr :=
  ⟨attr.alName, attr.alResc, some attr.alValue, attr.alOp⟩

theorem encodeSvrattrl_eq (attr : SvrattrlSent) : encodeSvrattrl attr = attr.named.encode := by
  have length : attr.alName.1.length + attr.alValue.1.length + 2 + lengthWith attr.alResc =
      attr.named.length := by
    change _ = attr.alName.1.length + 1 + (attr.alValue.1.length + 1) + lengthWith attr.alResc
    omega
  rw [encodeSvrattrl, length]
  rfl

theorem flatMap_encodeSvrattrl (attrs : List SvrattrlSent) :
    attrs.flatMap encodeSvrattrl = (attrs.map SvrattrlSent.named).flatMap NamedAttr.encode := by
  rw [flatMap_map]
  congr 1
  funext attr
  exact encodeSvrattrl_eq attr

/-- The three decoders read back what `encode_DIS_attropl` writes if the number of attributes, as an
`unsigned int`, is that of the attributes with a name, and each of these fits.  They read back what
`encode_DIS_svrattrl` writes if the number of attributes is an `unsigned int`, and each fits. -/
theorem attribute_lists_read_back_iff (attrs : List Attropl) (svrattrs : List SvrattrlSent) :
    (DecodesTo (encodeDisAttropl attrs)
        ((attrs.filterMap Attropl.named).map NamedAttr.shown) ↔
      attrs.length % 2 ^ 32 = (attrs.filterMap Attropl.named).length ∧
        ∀ attr ∈ attrs.filterMap Attropl.named, attr.Fits) ∧
    (DecodesTo (encodeDisSvrattrl svrattrs)
        ((svrattrs.map SvrattrlSent.named).map NamedAttr.shown) ↔
      svrattrs.length < 2 ^ 32 ∧ ∀ attr ∈ svrattrs, attr.named.Fits) := by
  constructor
  · rw [encodeDisAttropl, flatMap_encodeAttropl, decodesTo_iff, UInt32.toNat_ofNat']
  · rw [encodeDisSvrattrl, flatMap_encodeSvrattrl, decodesTo_iff, UInt32.toNat_ofNat',
      length_map, Nat.mod_eq_iff_lt (by decide), forall_mem_map]

/-- An attribute without a name is counted, and then missing. -/
theorem nameless_attribute_missing :
    ¬ ∀ attrs : List Attropl, DecodesTo (encodeDisAttropl attrs)
      ((attrs.filterMap Attropl.named).map NamedAttr.shown) := by
  intro decodes
  have read := (decodes [⟨none, none, none, 0⟩]).attropl
    ⟨false, fun _ => true, fun _ => 0, false⟩ (fun _ => rfl) [] .closed
  have code := congrArg ItemsRead.code read
  revert code
  decide +kernel

end Torque.Dis
