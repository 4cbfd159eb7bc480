import Mathlib.Algebra.Order.Ring.Int
import Torque.Text.Decimal
import Torque.Transition.Run

/-!
# The processor count of a job

A job that asks for `nodes`, for `procs` or for both has their processors in `procct`.
The action routines of the two resources are to set it.  That of `nodes` adds the two numbers.
`set_proc_ct`, which is meant for `procs`, counts the processors of the nodes and drops the count,
and it reads `procs` through a pointer that is no longer valid if the list has been moved to make
room for `procct`.  In the table of the server it belongs to `sds`, and `procs` has no routine.
-/

namespace Torque.Attributes

open Torque.Text Torque.Transition List

/-! ## Node specifications -/

/-- The text behind the first `:ppn=`. -/
def behindPpn : List Char → Option (List Char)
  | [] => none
  | c :: text =>
    if ":ppn=".toList.isPrefixOf (c :: text) then some ((c :: text).drop 5) else behindPpn text

/-- The nodes of a part; one, if it has no number. -/
def numNodes (part : List Char) : Int :=
  if atoi part = 0 then 1 else atoi part

/-- The processors of each of the nodes. -/
def numProcs (part : List Char) : Int :=
  match behindPpn part with
  | none => 1
  | some number => atoi number

/-- A `long`. -/
def asLong (n : Int) : Int :=
  n.bmod (2 ^ 64)

/-- `count_proc`. -/
def countProc (spec : List Char) : Int :=
  (tokens (· == '+') spec).foldl
    (fun total part => asLong (total + numProcs part * numNodes part)) 0

/-- `ctnodes`. -/
def ctnodes (spec : List Char) : Int :=
  (spec.splitOn '+').foldl (fun ct part =>
    let part := part.dropWhile Char.isWhitespace
    if (part.headD ' ').isDigit then ct + atoi part else ct + 1) 0

/-- The nodes that a part asks for. -/
def nodesOf (part : List Char) : Int :=
  if numberOf part = 0 then 1 else numberOf part

/-- The processors that a part asks for on each of its nodes. -/
def ppnOf (part : List Char) : Int :=
  ((behindPpn part).map numberOf).getD 1

/-- The processors that a specification asks for. -/
def processors (spec : List Char) : Int :=
  ((tokens (· == '+') spec).map fun part => ppnOf part * nodesOf part).sum

/-- The number is an `int`. -/
def IsInt (n : Int) : Prop :=
  -2 ^ 31 ≤ n ∧ n < 2 ^ 31
deriving Decidable

/-- The numbers of a specification are `int`s. -/
def IntNumbers (spec : List Char) : Prop :=
  ∀ part ∈ tokens (· == '+') spec, IsInt (numberOf part) ∧ IsInt (ppnOf part)
deriving Decidable

theorem atoi_of_isInt {text : List Char} (fits : IsInt (numberOf text)) :
    atoi text = numberOf text := by
  obtain ⟨low, high⟩ := fits
  have kept : saturate (numberOf text) = numberOf text := by
    unfold saturate
    omega
  rw [atoi_eq, narrowed, kept, asInt, Int.bmod_eq_of_le] <;> omega

theorem countProc_eq {spec : List Char} (ints : IntNumbers spec) :
    countProc spec = asLong (processors spec) := by
  have general : ∀ (parts : List (List Char)) (total : Int),
      (∀ part ∈ parts, IsInt (numberOf part) ∧ IsInt (ppnOf part)) →
      parts.foldl (fun total part => asLong (total + numProcs part * numNodes part))
        (asLong total) =
        asLong (total + (parts.map fun part => ppnOf part * nodesOf part).sum) := by
    intro parts
    induction parts with
    | nil => simp
    | cons part parts ih =>
      intro total ints
      obtain ⟨⟨nodes, ppn⟩, ints⟩ := forall_mem_cons.mp ints
      have nodesEq : numNodes part = nodesOf part := by
        rw [numNodes, nodesOf, atoi_of_isInt nodes]
      have ppnEq : numProcs part = ppnOf part := by
        unfold numProcs
        unfold ppnOf at ppn ⊢
        cases found : behindPpn part with
        | none => rfl
        | some number =>
          rw [found] at ppn
          exact atoi_of_isInt ppn
      rw [foldl_cons, nodesEq, ppnEq, map_cons, sum_cons, ← Int.add_assoc, ← ih _ ints]
      congr 1
      exact Int.bmod_add_bmod
  rw [← Int.zero_add (processors spec)]
  exact general _ 0 ints

example : countProc "2:ppn=4:big+n1+3".toList = 12 := by decide

/-! ## Settings -/

/-- The resources of a job that have to do with processors. -/
structure ResourceList where
  nodes : Option (List Char)
  procs : Option Int
  nodect : Option Int
  neednodes : Option (List Char)
  procct : Option Int

section

variable (list : ResourceList)

/-- `set_node_ct`, not in recovery mode. -/
def setNodeCt (spec : List Char) : ResourceList :=
  { list with
    nodect := some (ctnodes spec)
    neednodes := some spec
    procct := some (asLong (list.procs.getD 0 + countProc spec)) }

/-- `set_proc_ct`, not in recovery mode.  `room` says that the list is not moved if `procct` is
appended, and `stale` is what is read where `procs` was before. -/
def setProcCt (room : Bool) (stale procs : Int) : ResourceList :=
  { list with
    procct := some (if list.procct.isNone ∧ room = false then stale else procs) }

/-- What follows the setting of `procs`. -/
inductive ProcsAction where
  /-- nothing, as in the table of the server -/
  | nullFunc
  /-- `set_proc_ct`, as its comment says -/
  | setProcCt (room : Bool) (stale : Int)
  deriving DecidableEq

/-- A resource is set to a value. -/
inductive Setting where
  | nodes (spec : List Char)
  | procs (number : Int) (action : ProcsAction)
  deriving DecidableEq

/-- A resource is set, and its action routine is called. -/
def set : Setting → ResourceList
  | .nodes spec => setNodeCt { list with nodes := some spec } spec
  | .procs number .nullFunc => { list with procs := some number }
  | .procs number (.setProcCt room stale) =>
    setProcCt { list with procs := some number } room stale number

/-- A job without resources. -/
def ResourceList.unset : ResourceList :=
  ⟨none, none, none, none, none⟩

/-- The processors of the current nodes specification. -/
def ResourceList.nodeProcs : Int :=
  (list.nodes.map processors).getD 0

/-- `procct` is the sum of the two. -/
def ResourceList.Right : Prop :=
  list.procct.getD 0 = list.procs.getD 0 + list.nodeProcs
deriving Decidable

/-- The numbers of the nodes are `int`s, and the sum is a `long`; `procs` is set without an action
only to what it is, and otherwise while no processors are asked for by nodes, with `procct` there
or room for it. -/
def Alone : Setting → Prop
  | .nodes spec => IntNumbers spec ∧ asLong (list.procs.getD 0 + processors spec) =
      list.procs.getD 0 + processors spec
  | .procs number .nullFunc => number = list.procs.getD 0
  | .procs _ (.setProcCt room _) => list.nodeProcs = 0 ∧ (list.procct.isSome = true ∨ room = true)

instance (setting : Setting) : Decidable (Alone list setting) := by
  rcases setting with _ | ⟨_, _ | _⟩ <;> dsimp only [Alone] <;> infer_instance

theorem right_set (setting : Setting) (right : list.Right) (alone : Alone list setting) :
    (set list setting).Right := by
  rcases setting with spec | ⟨number, _ | ⟨room, stale⟩⟩
  · obtain ⟨ints, long⟩ := alone
    change asLong (list.procs.getD 0 + countProc spec) = list.procs.getD 0 + processors spec
    rw [countProc_eq ints, ← long]
    exact Int.add_bmod_bmod
  · change list.procct.getD 0 = number + list.nodeProcs
    rw [show number = list.procs.getD 0 from alone]
    exact right
  · obtain ⟨none, there⟩ := alone
    have valid : ¬ (list.procct.isNone = true ∧ room = false) := by
      rintro ⟨absent, full⟩
      rcases there with present | free
      · rw [Option.isNone_iff_eq_none.mp absent] at present
        cases present
      · rw [full] at free
        cases free
    change (if list.procct.isNone = true ∧ room = false then stale else number) =
      number + list.nodeProcs
    rw [if_neg valid, none, Int.add_zero]

end

end Torque.Attributes
