import Mathlib.Algebra.Order.Ring.Int
import Mathlib.Algebra.Order.BigOperators.Group.List

/-!
# The paths of a mom hierarchy

A mom passes its status on to a node of its hierarchy.  `force_path_update` looks for one to which
it can connect, and tries the levels of a path from the last one on.  With several paths, each
round of its loop takes the last path, so that the others are never tried.
-/

namespace Torque.Node

open List

/-- `node_comm_t`. -/
structure NodeComm where
  mtime : Int
  stream : Int
  bad : Bool
  sockAddr : Nat
  name : String
  deriving DecidableEq, Repr

/-- The nodes of each level of a path. -/
abbrev MomLevels := List (List NodeComm)

/-- The levels of each path. -/
abbrev MomPaths := List MomLevels

/-- What a search meets. -/
structure Network where
  timeNow : Int
  /-- The time at each attempt that fails. -/
  time : Nat → Int
  momHierarchyRetryTime : Int
  /-- The stream to an address, negative for a failure. -/
  tcpConnectSockaddr : Nat → Int

/-- What a search has found, and what it has made of the entry that it searched. -/
structure Search (α : Type) where
  found : Option NodeComm
  attempts : Nat
  entry : α

/-- `NODE_COMM_MAX_ATTEMPTS`. -/
def nodeCommMaxAttempts : Nat := 10

section

variable {α : Type} (visit : Nat → α → Search α) (limited : Bool)

/-- A loop over entries, which ends with the first node found.  If it is limited, it also ends
after an entry with which there are too many attempts. -/
def searchEach : Nat → List α → Search (List α)
  | attempts, [] => ⟨none, attempts, []⟩
  | attempts, first :: rest =>
    let tried := visit attempts first
    if tried.found.isSome ∨ limited ∧ tried.attempts > nodeCommMaxAttempts then
      ⟨tried.found, tried.attempts, tried.entry :: rest⟩
    else
      let later := searchEach tried.attempts rest
      ⟨later.found, later.attempts, tried.entry :: later.entry⟩

/-- What a visit does: the entry offers a node afterwards if it did before, and then one is found
unless there are too many failures. -/
structure Visited (offers : α → Prop) (failures : α → Nat) (attempts : Nat) (entry : α)
    (tried : Search α) : Prop where
  offered : tried.found.isSome → offers entry
  kept : offers tried.entry ↔ offers entry
  attempts_le : tried.attempts ≤ attempts + failures entry
  found : offers entry → attempts + failures entry ≤ nodeCommMaxAttempts → tried.found.isSome

variable {visit} {offers : α → Prop} {failures : α → Nat}

theorem searchEach_visited
    (visited : ∀ attempts entry, Visited offers failures attempts entry (visit attempts entry))
    (attempts : Nat) (entries : List α) :
    Visited (∃ entry ∈ ·, offers entry) (fun entries => (entries.map failures).sum) attempts entries
      (searchEach visit limited attempts entries) := by
  induction entries generalizing attempts with
  | nil => exact ⟨nofun, .rfl, Nat.le_refl _, nofun⟩
  | cons first rest ih =>
    have here := visited attempts first
    have later := ih (visit attempts first).attempts
    have first_le := here.attempts_le
    have later_le := later.attempts_le
    unfold searchEach
    dsimp only
    split
    · next ends =>
      constructor
      all_goals simp only [exists_mem_cons_iff, here.kept, map_cons, sum_cons]
      · exact fun found => .inl (here.offered found)
      · omega
      · intro _ few
        exact ends.resolve_right fun many => by omega
    · next goes =>
      constructor
      all_goals simp only [exists_mem_cons_iff, here.kept, later.kept, map_cons, sum_cons]
      · exact fun found => .inr (later.offered found)
      · omega
      · intro some few
        refine later.found (some.resolve_left fun one => goes (.inl (here.found one ?_))) ?_
        all_goals omega

end

variable (net : Network)

/-- The node is within its back-off period. -/
abbrev Network.BacksOff (nc : NodeComm) : Prop :=
  nc.bad = true ∧ net.timeNow - nc.mtime ≤ net.momHierarchyRetryTime

/-- `rm_establish_connection`. -/
def rmEstablishConnection (attempts : Nat) (nc : NodeComm) : Bool × NodeComm :=
  let nc := { nc with stream := net.tcpConnectSockaddr nc.sockAddr }
  if nc.stream < 0 then (false, { nc with mtime := net.time attempts, bad := true }) else (true, nc)

/-- The body of the loop over the nodes. -/
def tryNode (attempts : Nat) (nc : NodeComm) : Search NodeComm :=
  if net.BacksOff nc then ⟨none, attempts, nc⟩
  else match rmEstablishConnection net attempts nc with
    | (true, nc) => ⟨some nc, attempts, nc⟩
    | (false, nc) => ⟨none, attempts + 1, nc⟩

/-- The levels of a path, the last one first. -/
def tryPath (several : Bool) (attempts : Nat) (levels : MomLevels) :
    Search MomLevels :=
  let tried := searchEach (searchEach (tryNode net) false) several attempts levels.reverse
  { tried with entry := tried.entry.reverse }

/-- The loop over the paths, each round of which takes the levels of the last one. -/
def tryPaths : Nat → Nat → MomLevels → Search MomLevels
  | 0, attempts, levels => ⟨none, attempts, levels⟩
  | path + 1, attempts, levels =>
    let tried := tryPath net true attempts levels
    if tried.found.isSome then tried else tryPaths path tried.attempts tried.entry

/-- `force_path_update`, which fails if there are no paths. -/
def forcePathUpdate (paths : MomPaths) :
    Option (Option NodeComm × MomPaths) :=
  paths.getLast?.map fun levels =>
    let tried := if paths.length > 1 then tryPaths net paths.length 0 levels
      else tryPath net false 0 levels
    (tried.found, paths.dropLast ++ [tried.entry])

/-! ## What is found -/

/-- The node can be reached. -/
abbrev Network.Reaches (nc : NodeComm) : Prop :=
  0 ≤ net.tcpConnectSockaddr nc.sockAddr

/-- A node of the path can be reached and is out of its back-off period. -/
abbrev Network.Offers (levels : MomLevels) : Prop :=
  ∃ nodes ∈ levels, ∃ nc ∈ nodes, net.Reaches nc ∧ ¬net.BacksOff nc

/-- The nodes of the path that cannot be reached. -/
def Network.unreachable (levels : MomLevels) : Nat :=
  (levels.map fun nodes => (nodes.map fun nc => if net.Reaches nc then 0 else 1).sum).sum

theorem tryNode_visited (net : Network) (attempts : Nat) (nc : NodeComm) :
    Visited (fun nc => net.Reaches nc ∧ ¬net.BacksOff nc)
      (fun nc => if net.Reaches nc then 0 else 1) attempts nc (tryNode net attempts nc) := by
  unfold tryNode rmEstablishConnection
  by_cases waits : net.BacksOff nc
  · rw [if_pos waits]
    exact ⟨nofun, .rfl, Nat.le_add_right _ _, fun offers => absurd waits offers.2⟩
  · rw [if_neg waits]
    by_cases reached : net.Reaches nc
    · rw [if_neg (not_lt.mpr reached)]
      exact ⟨fun _ => ⟨reached, waits⟩, .rfl, Nat.le_add_right _ _, fun _ _ => rfl⟩
    · rw [if_pos (not_le.mp reached)]
      constructor <;> simp [reached]

theorem tryPath_visited (net : Network) (several : Bool) (attempts : Nat) (levels : MomLevels) :
    Visited net.Offers net.unreachable attempts levels (tryPath net several attempts levels) := by
  have each := searchEach_visited several (searchEach_visited false (tryNode_visited net))
    attempts levels.reverse
  obtain ⟨offered, kept, attempts_le, found⟩ := each
  simp only [mem_reverse, map_reverse, sum_reverse] at offered kept attempts_le found
  refine ⟨offered, ?_, attempts_le, found⟩
  simpa only [Network.Offers, tryPath, mem_reverse] using kept

/-- A path that offers no node gives none in any number of rounds. -/
theorem tryPaths_offered {net : Network} {rounds attempts : Nat} {levels : MomLevels}
    (found : (tryPaths net rounds attempts levels).found.isSome) : net.Offers levels := by
  induction rounds generalizing attempts levels with
  | zero => contradiction
  | succ rounds ih =>
    have visited := tryPath_visited net true attempts levels
    unfold tryPaths at found
    dsimp only at found
    split at found
    · exact visited.offered found
    · exact visited.kept.mp (ih found)

/-- If few enough nodes cannot be reached, `NULL` is returned only if no path offers a node exactly
if the last path offers one when any does. -/
theorem null_only_without_offers_iff (net : Network) (paths : MomPaths)
    (few : (paths.map net.unreachable).sum ≤ nodeCommMaxAttempts) :
    ((∃ after, forcePathUpdate net paths = some (none, after)) →
        ¬∃ path ∈ paths, net.Offers path) ↔
      ((∃ path ∈ paths, net.Offers path) → ∃ path ∈ paths.getLast?, net.Offers path) := by
  rcases eq_nil_or_concat' paths with rfl | ⟨others, path, rfl⟩
  · simp
  · have limit : 0 + net.unreachable path ≤ nodeCommMaxAttempts := by
      simp only [map_append, map_singleton, sum_append, sum_singleton] at few
      omega
    have found : (∃ after, forcePathUpdate net (others ++ [path]) = some (none, after)) ↔
        ¬net.Offers path := by
      simp only [forcePathUpdate, getLast?_concat, Option.map_some, Option.some.injEq,
        Prod.mk.injEq, exists_and_left, exists_eq', and_true]
      rw [← Option.not_isSome_iff_eq_none, not_iff_not]
      split
      · refine ⟨tryPaths_offered, fun offers => ?_⟩
        have found := (tryPath_visited net true 0 path).found offers limit
        rw [length_append, length_singleton, tryPaths, if_pos found]
        exact found
      · have visited := tryPath_visited net false 0 path
        exact ⟨visited.offered, fun offers => visited.found offers limit⟩
    rw [found, getLast?_concat]
    simp only [Option.mem_def, Option.some.injEq, exists_eq_left']
    exact not_imp_not

/-- Two paths with one node each. -/
def twoPaths : MomPaths :=
  [[[⟨0, -1, false, 1, "first"⟩]], [[⟨0, -1, false, 2, "second"⟩]]]

/-- Only the address can be reached. -/
def reachOnly (address : Nat) : Network :=
  ⟨100, fun _ => 100, 90, fun other => if other = address then 7 else -1⟩

/-- The node on the first path is not tried. -/
theorem first_path_left_out :
    (twoPaths.map (reachOnly 1).unreachable).sum ≤ nodeCommMaxAttempts ∧
      (forcePathUpdate (reachOnly 1) twoPaths).map Prod.fst = some none ∧
        ∃ path ∈ twoPaths, (reachOnly 1).Offers path := by
  decide

theorem null_only_without_offers_second :
    (∃ path ∈ twoPaths, (reachOnly 2).Offers path) ∧
      ((∃ after, forcePathUpdate (reachOnly 2) twoPaths = some (none, after)) →
        ¬∃ path ∈ twoPaths, (reachOnly 2).Offers path) :=
  ⟨by decide, (null_only_without_offers_iff (reachOnly 2) twoPaths (by decide)).mpr (by decide)⟩

end Torque.Node
