import Torque.Numa.Chip

/-!
# The scan for contiguous threads

`getContiguousThreadVector` walks over the units of a chip and collects units
that are not busy.  A busy unit behind the first of them makes it start again,
with that busy unit as the first one collected.  So it ends well in three cases:
if it wants at most one unit, if the first run of idle units is long enough, and
if no run behind the first one has even one unit less than wanted, in which case
it falls back to `getOpenThreadVector`.  In all other cases a busy unit is among
those it returns.
-/

namespace Torque.Numa

open Torque.Structure List

/-- The unit is not busy. -/
def Pu.idle (unit : Pu) : Bool :=
  !unit.busy

/-- The scan for so many units, in a row of units with these flags, finds idle
units only. -/
def SteadyScan (units : List Pu) (wanted : Int) : Prop :=
  wanted ≤ 1 ∨ wanted ≤ firstRun Pu.idle units ∨
    longestRun Pu.idle (behindFirstRun Pu.idle units) + 1 < wanted
deriving Decidable

variable {units : List Pu} {slots : List Int} {wanted left : Int} {unit : Pu}

/-- What the scan goes on with once it has collected something. -/
theorem contiguousUnits_cons_idle (idle : unit.busy = false) :
    contiguousUnits wanted (unit :: units) slots left =
      if left - 1 = 0 then some (slots ++ [unit.index])
      else contiguousUnits wanted units (slots ++ [unit.index]) (left - 1) := by
  simp [contiguousUnits, idle]

theorem contiguousUnits_cons_busy (busy : unit.busy = true) (started : slots ≠ []) :
    contiguousUnits wanted (unit :: units) slots left =
      if wanted - 1 = 0 then some [unit.index]
      else contiguousUnits wanted units [unit.index] (wanted - 1) := by
  simp [contiguousUnits, busy, started]

theorem contiguousUnits_dropWhile :
    contiguousUnits wanted (units.dropWhile fun unit => !unit.idle) [] left =
      contiguousUnits wanted units [] left := by
  induction units with
  | nil => rfl
  | cons unit units ih =>
    cases busy : unit.busy with
    | true => simp [contiguousUnits, Pu.idle, busy, ← ih]
    | false => simp [Pu.idle, busy]

theorem openUnits_dropWhile :
    openUnits (units.dropWhile fun unit => !unit.idle) wanted = openUnits units wanted := by
  induction units with
  | nil => rfl
  | cons unit units ih =>
    cases busy : unit.busy with
    | true => simp [openUnits, Pu.idle, busy, ← ih]
    | false => simp [Pu.idle, busy]

theorem contiguousUnits_of_le_leadingRun (one : 1 ≤ left)
    (enough : left ≤ leadingRun Pu.idle units) :
    contiguousUnits wanted units slots left = some (slots ++ openUnits units left) := by
  induction units generalizing slots left with
  | nil =>
    simp only [leadingRun_nil] at enough
    omega
  | cons unit units ih =>
    cases busy : unit.busy with
    | true =>
      rw [leadingRun_cons_of_neg (by simp [Pu.idle, busy])] at enough
      omega
    | false =>
      rw [leadingRun_cons_of_pos (by simp [Pu.idle, busy])] at enough
      rw [contiguousUnits_cons_idle busy]
      by_cases last : left - 1 = 0
      · simp [openUnits, busy, last]
      · rw [if_neg last, ih (by omega) (by omega)]
        simp [openUnits, busy, last]

/-- Runs that are too short are given up, and so are those behind them. -/
theorem contiguousUnits_eq_none (started : slots ≠ [])
    (short : leadingRun Pu.idle units < left) (shorter : longestRun Pu.idle units + 1 < wanted) :
    contiguousUnits wanted units slots left = none := by
  induction units generalizing slots left with
  | nil => rfl
  | cons unit units ih =>
    have tail := longestRun_le_cons Pu.idle unit units
    cases busy : unit.busy with
    | true =>
      have leading := leadingRun_le_longestRun Pu.idle units
      rw [contiguousUnits_cons_busy busy started, if_neg (by omega)]
      exact ih (cons_ne_nil _ _) (by omega) (by omega)
    | false =>
      rw [leadingRun_cons_of_pos (by simp [Pu.idle, busy])] at short
      rw [contiguousUnits_cons_idle busy, if_neg (by omega)]
      exact ih (by simp) (by omega) (by omega)

theorem contiguousUnits_of_neg (few : wanted < 0) (none : left < 0) :
    contiguousUnits wanted units slots left = .none := by
  induction units generalizing slots left with
  | nil => rfl
  | cons unit units ih =>
    cases busy : unit.busy with
    | false =>
      rw [contiguousUnits_cons_idle busy, if_neg (by omega)]
      exact ih (by omega)
    | true =>
      by_cases started : slots = []
      · simp only [contiguousUnits, busy, if_true, started]
        exact ih none
      · rw [contiguousUnits_cons_busy busy started, if_neg (by omega)]
        exact ih (by omega)

/-- The first unit that is left after the busy ones is idle. -/
theorem idle_of_dropWhile {rest : List Pu}
    (row : (units.dropWhile fun unit => !unit.idle) = unit :: rest) : unit.busy = false := by
  have head := head?_dropWhile_not (fun unit : Pu => !unit.idle) units
  rw [row] at head
  simpa [Pu.idle] using head

/-- A steady scan returns the first units that are not busy. -/
theorem contiguousUnits_getD (nonzero : wanted ≠ 0) (steady : SteadyScan units wanted) :
    (contiguousUnits wanted units [] wanted).getD (openUnits units wanted) =
      openUnits units wanted := by
  by_cases negative : wanted < 0
  · rw [contiguousUnits_of_neg negative negative]
    rfl
  unfold SteadyScan firstRun behindFirstRun at steady
  rw [← contiguousUnits_dropWhile, ← openUnits_dropWhile]
  cases row : units.dropWhile fun unit => !unit.idle with
  | nil => rfl
  | cons unit rest =>
    have idle := idle_of_dropWhile row
    have holds : unit.idle = true := by simp [Pu.idle, idle]
    rw [row, leadingRun_cons_of_pos holds, dropWhile_cons_of_pos holds] at steady
    by_cases enough : wanted ≤ leadingRun Pu.idle rest + 1
    · rw [contiguousUnits_of_le_leadingRun (by omega)
        (by rw [leadingRun_cons_of_pos holds]; omega)]
      rfl
    · have longest := longestRun_le_dropWhile Pu.idle rest
      rw [contiguousUnits_cons_idle idle, if_neg (by omega),
        contiguousUnits_eq_none (by simp) (by omega) (by omega)]
      rfl

/-! ## What the scans return -/

/-- The units that are not busy. -/
def Chip.idleIndices (chip : Chip) : List Int :=
  (chip.units.filter Pu.idle).map Pu.index

/-- The first units that are not busy are returned, and no more than wanted. -/
theorem openUnits_eq_take (units : List Pu) (wanted : Int) :
    ∃ n : Nat, openUnits units wanted = ((units.filter Pu.idle).map Pu.index).take n ∧
      (0 < wanted → n ≤ wanted) := by
  induction units generalizing wanted with
  | nil => exact ⟨0, rfl, fun pos => pos.le⟩
  | cons unit units ih =>
    unfold openUnits
    cases busy : unit.busy with
    | true =>
      rw [filter_cons_of_neg (by simp [Pu.idle, busy])]
      exact ih wanted
    | false =>
      rw [filter_cons_of_pos (by simp [Pu.idle, busy]), map_cons]
      by_cases last : wanted - 1 = 0
      · exact ⟨1, by simp [last], fun _ => by omega⟩
      · obtain ⟨n, same, few⟩ := ih (wanted - 1)
        exact ⟨n + 1, by simp [last, same], fun _ => by omega⟩

theorem openUnits_sublist (units : List Pu) (wanted : Int) :
    (openUnits units wanted).Sublist ((units.filter Pu.idle).map Pu.index) := by
  obtain ⟨n, same, -⟩ := openUnits_eq_take units wanted
  rw [same]
  exact take_sublist _ _

namespace Chip

theorem getOpenThreadVector_sublist (chip : Chip) (wanted : Int) :
    (chip.getOpenThreadVector wanted).Sublist chip.idleIndices := by
  unfold getOpenThreadVector
  split
  · exact nil_sublist _
  · exact openUnits_sublist _ _

theorem getContiguousThreadVector_sublist {chip : Chip} (steady : SteadyScan chip.units wanted) :
    (chip.getContiguousThreadVector wanted).Sublist chip.idleIndices := by
  unfold getContiguousThreadVector
  split
  · exact nil_sublist _
  · rename_i nonzero
    rw [contiguousUnits_getD nonzero steady]
    exact openUnits_sublist _ _

end Chip

/-! ## Free cores -/

/-- The positions of the cores that are free. -/
def freePositions : List Core → Nat → List Nat
  | [], _ => []
  | core :: cores, position =>
    if core.free then position :: freePositions cores (position + 1)
    else freePositions cores (position + 1)

theorem contiguousCores_spec {cores : List Core} {position : Nat} {slots found : List Nat}
    (result : contiguousCores wanted cores position slots left = some found) :
    found.Sublist (slots ++ freePositions cores position) ∧
      (0 < left → slots.length + left = wanted → found.length ≤ wanted) := by
  induction cores generalizing position slots left with
  | nil => contradiction
  | cons core cores ih =>
    unfold contiguousCores at result
    unfold freePositions
    split at result
    · rename_i free
      rw [if_pos free]
      split at result
      · cases result
        rw [length_append, length_singleton]
        exact ⟨(List.Sublist.refl slots).append ((nil_sublist _).cons_cons position), by omega⟩
      · have later := ih result
        rw [append_assoc, length_append, length_singleton] at later
        exact ⟨later.1, fun pos sum => later.2 (by omega) (by omega)⟩
    · rename_i taken
      rw [if_neg taken]
      exact ⟨(ih result).1.trans (sublist_append_right slots _),
        fun pos sum => (ih result).2 (by omega) (by simp)⟩

theorem freeCores_eq_take (cores : List Core) (position : Nat) (wanted : Int) :
    freeCores cores position wanted = (freePositions cores position).take wanted.toNat := by
  induction cores generalizing position wanted with
  | nil => exact take_nil.symm
  | cons core cores ih =>
    unfold freeCores freePositions
    split
    · rename_i none
      rw [Int.toNat_of_nonpos none, take_zero]
    · have succ : wanted.toNat = (wanted - 1).toNat + 1 := by omega
      split
      · rw [ih, succ, take_succ_cons]
      · exact ih _ _

variable (chip : Chip) (wanted : Int)

theorem Chip.getContiguousCoreVector_sublist :
    (chip.getContiguousCoreVector wanted).Sublist (freePositions chip.cores 0) := by
  unfold Chip.getContiguousCoreVector
  split
  · exact nil_sublist _
  · cases result : contiguousCores wanted chip.cores 0 [] wanted with
    | none =>
      rw [freeCores_eq_take]
      exact take_sublist _ _
    | some found => exact (contiguousCores_spec result).1

theorem freePositions_filterMap_id (before cores : List Core) :
    ((freePositions cores before.length).filterMap fun position =>
        (before ++ cores)[position]?.map Core.id) =
      (cores.filter Core.free).map Core.id := by
  induction cores generalizing before with
  | nil => rfl
  | cons core cores ih =>
    have rest := ih (before ++ [core])
    rw [append_assoc, length_append, length_singleton] at rest
    unfold freePositions
    split
    · rename_i free
      have here : (before ++ core :: cores)[before.length]?.map Core.id = some core.id := by simp
      simp only [filterMap_cons, here, filter_cons_of_pos free, map_cons, ← rest]
      rfl
    · rename_i taken
      rw [filter_cons_of_neg taken, ← rest]
      rfl

/-- The names of the cores that were chosen are names of free cores. -/
theorem Chip.coreVector_ids_sublist :
    ((chip.getContiguousCoreVector wanted).filterMap fun position =>
        chip.cores[position]?.map Core.id).Sublist ((chip.cores.filter Core.free).map Core.id) := by
  have ids := freePositions_filterMap_id [] chip.cores
  rw [← ids]
  exact (chip.getContiguousCoreVector_sublist wanted).filterMap _

end Torque.Numa
