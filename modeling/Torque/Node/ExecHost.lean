import Torque.Node.SlotTracker
import Torque.Text.Decimal

/-!
# The exec_host string and recovered jobs

The slots that a running job has on each of its nodes are written to its
`exec_host` attribute, as ranges, and are marked again from there when the server
is started.  The printer writes all ranges of a node; the scanner reads only the
first one.

Nodes are looked up by name, boards of a NUMA node under their own names.  The
server is one without Cray nodes.
-/

namespace Torque.Node

open Torque.Text

/-! ## Printing -/

/-- The variables of `populate_range_string_from_slot_tracker`. -/
structure RangeState where
  rangeStr : List Char
  prevEstIndex : Nat
  consecutiveIndices : Bool

/-- What `snprintf` leaves in `numbuf`, which has room for nine characters. -/
def numbuf (text : List Char) : List Char :=
  text.take 9

variable (state : RangeState)

/-- One round of the loop. -/
def rangeStep (estIndex : Nat) : RangeState :=
  if state.consecutiveIndices = false then
    if state.rangeStr = [] then
      { state with rangeStr := state.rangeStr ++ numbuf (decimal estIndex), prevEstIndex := estIndex }
    else if state.prevEstIndex + 1 = estIndex then
      { state with consecutiveIndices := true, prevEstIndex := estIndex }
    else
      { state with
        rangeStr := state.rangeStr ++ numbuf (',' :: decimal estIndex)
        prevEstIndex := estIndex }
  else if state.prevEstIndex + 1 ≠ estIndex then
    { rangeStr := state.rangeStr ++ numbuf ('-' :: decimal state.prevEstIndex) ++
        numbuf (',' :: decimal estIndex)
      consecutiveIndices := false
      prevEstIndex := estIndex }
  else { state with prevEstIndex := estIndex }

/-- The end of the last range. -/
def rangeEnd : List Char :=
  if state.consecutiveIndices then
    state.rangeStr ++ numbuf ('-' :: decimal state.prevEstIndex)
  else state.rangeStr

/-- `populate_range_string_from_slot_tracker`.  The previous index is not read
before there is one. -/
def populateRangeStringFromSlotTracker (est : ExecutionSlotTracker) : List Char :=
  rangeEnd (est.occupied.foldl rangeStep ⟨[], 0, false⟩)

/-- The name of a node, in which `parse_node_token` allows neither `+` nor `/`. -/
structure NodeName where
  chars : List Char
  nonempty : chars ≠ []
  noPlus : '+' ∉ chars
  noSlash : '/' ∉ chars
  deriving DecidableEq

/-- What is read of a `job_reservation_info`, with the name that `node_mapper` has
for the node. -/
structure JobReservationInfo where
  node : NodeName
  est : ExecutionSlotTracker

/-- One entry of the list. -/
def JobReservationInfo.entry (info : JobReservationInfo) : List Char :=
  info.node.chars ++ '/' :: populateRangeStringFromSlotTracker info.est

/-- `translate_job_reservation_info_to_string`, the exec_host part. -/
def translateJobReservationInfoToString (hostInfo : List JobReservationInfo) : List Char :=
  ['+'].intercalate (hostInfo.map JobReservationInfo.entry)

/-! ## Recovering -/

/-- `job_usage_info`: the slots of a node that a job uses. -/
structure JobUsageInfo where
  internalJobId : Nat
  est : ExecutionSlotTracker
  deriving DecidableEq

/-- What recovering a job reads and writes of a node. -/
structure PbsNode where
  ndSlots : ExecutionSlotTracker
  ndJobUsages : List JobUsageInfo
  inuseJob : Bool
  deriving DecidableEq

/-- The nodes by their names. -/
abbrev AllNodes := NodeName → Option PbsNode

/-- The name that a text is, if it is one. -/
def NodeName.ofChars? (chars : List Char) : Option NodeName :=
  if legal : chars ≠ [] ∧ '+' ∉ chars ∧ '/' ∉ chars then
    some ⟨chars, legal.1, legal.2.1, legal.2.2⟩
  else none

/-- The usage record of the job, with the slots from `first` to `last` added. -/
def JobUsageInfo.add (first last : Int) (jui : JobUsageInfo) : JobUsageInfo :=
  { jui with est := (jui.est.padTo last).markRange first last }

variable (internalJobId : Nat)

/-- The node, with the slots from `first` to `last` used by the job. -/
def PbsNode.setSlots (first last : Int) (pnode : PbsNode) : PbsNode :=
  let usages := pnode.ndJobUsages.map fun jui =>
    if jui.internalJobId = internalJobId then jui.add first last else jui
  let found := pnode.ndJobUsages.any fun jui => jui.internalJobId = internalJobId
  let slots := pnode.ndSlots.markRange first last
  { ndSlots := slots
    ndJobUsages :=
      if found then usages
      else usages ++ [JobUsageInfo.add first last ⟨internalJobId, .empty⟩]
    inuseJob := pnode.inuseJob || decide (slots.getNumberFree ≤ 0) }

/-- The end of a range that starts with `first`. -/
def lastSlot (first : Int) : List Char → Int
  | '-' :: more => asInt (strtol more).1
  | _ => first

/-- The slots that an entry names: the first range behind the slash, or slot 0. -/
def slotRange (name : List Char) : Int × Int :=
  match name.dropWhile (· ≠ '/') with
  | [] => (0, 0)
  | _ :: rest =>
    let first := asInt (strtol rest).1
    (first, lastSlot first (strtol rest).2)

/-- `set_one_old`; the flag is whether `find_nodebyname` finds the node. -/
def setOneOld (name : List Char) (nodes : AllNodes) : Bool × AllNodes :=
  let (first, last) := slotRange name
  match NodeName.ofChars? (name.takeWhile (· ≠ '/')) with
  | none => (false, nodes)
  | some host =>
    match nodes host with
    | none => (false, nodes)
    | some pnode =>
      (true, Function.update nodes host (some (pnode.setSlots internalJobId first last)))

/-- The entries one after the other, up to the first one whose node is unknown. -/
def setEntries (internalJobId : Nat) : List (List Char) → AllNodes → Bool × AllNodes
  | [], nodes => (true, nodes)
  | entry :: entries, nodes =>
    match setOneOld internalJobId entry nodes with
    | (false, nodes) => (false, nodes)
    | (true, nodes) => setEntries internalJobId entries nodes

/-- `set_old_nodes`, which takes the entries of `exec_host` from the back. -/
def setOldNodes (execHost : List Char) (nodes : AllNodes) : Bool × AllNodes :=
  setEntries internalJobId (execHost.splitOn '+').reverse nodes

end Torque.Node
