import Torque.Structure.Tally

/-!
# Cores and their processing units

A core keeps for each of its processing units whether it is busy, and two
summaries of that: whether the whole core is free, and how many units are open.
The units are named by the index the operating system gives them, and the core
by the index of its first unit, as a server reads them from a node's layout.

`CoreLayout` is the part of a core that never changes.  A core whose summaries
agree with its flags is determined by its layout and the set of busy units, and
the operations then amount to adding units to that set or removing them.
-/

namespace Torque.Numa

open Function List

/-- A processing unit: an entry of `indices` with its `is_index_busy`. -/
structure Pu where
  index : Int
  busy : Bool
  deriving DecidableEq, Repr

/-- `Core`. -/
structure Core where
  id : Int
  totalThreads : Int
  free : Bool
  units : List Pu
  processingUnitsOpen : Int
  deriving DecidableEq, Repr

/-- The first unit that satisfies `p` gets a new flag. -/
def setFirst (p : Pu → Bool) (busy : Bool) : List Pu → List Pu
  | [] => []
  | unit :: units => if p unit then { unit with busy := busy } :: units
      else unit :: setFirst p busy units

/-- `reserve_processing_unit`; `none` if the unit is not part of this core.  It
is not checked whether the unit is busy. -/
def Core.reserveProcessingUnit (core : Core) (index : Int) : Option Core :=
  if core.units.any fun unit => decide (unit.index = index) then
    some { core with
      units := setFirst (fun unit => decide (unit.index = index)) true core.units
      free := false
      processingUnitsOpen := core.processingUnitsOpen - 1 }
  else
    none

/-- `get_open_processing_unit`, with the index of the unit that was taken. -/
def Core.getOpenProcessingUnit (core : Core) : Option Int × Core :=
  match core.units.find? fun unit => !unit.busy with
  | some unit =>
    (some unit.index,
      { core with
        units := setFirst (fun unit => !unit.busy) true core.units
        free := false
        processingUnitsOpen := core.processingUnitsOpen - 1 })
  | none => (none, { core with free := false })

/-- The loop of `reserve_core` that takes units until none is open.  Every
round but the last takes one. -/
def Core.takeUnits : Nat → Core → Core
  | 0, core => core
  | rounds + 1, core =>
    if core.getOpenProcessingUnit.1 = none then core.getOpenProcessingUnit.2
    else takeUnits rounds core.getOpenProcessingUnit.2

/-- What `free_pu_index` returns, and the value of `core_is_now_free`. -/
structure FreedPu where
  freedIndex : Bool
  coreIsNowFree : Bool
  core : Core

/-- `free_pu_index`. -/
def Core.freePuIndex (core : Core) (index : Int) : FreedPu :=
  if core.free then
    ⟨true, true, core⟩
  else if core.units.any fun unit => decide (unit.index = index) && unit.busy then
    let opened := core.processingUnitsOpen + 1
    let nowFree := decide (core.totalThreads = opened)
    ⟨true, nowFree,
      { core with
        units := setFirst (fun unit => decide (unit.index = index) && unit.busy) false core.units
        free := nowFree
        processingUnitsOpen := opened }⟩
  else
    ⟨false, false, core⟩

/-! ## Layouts -/

/-- The units of a core, the first of which names it. -/
structure CoreLayout where
  id : Int
  indices : List Int
  first : indices.head? = some id

/-- The core with the given busy units. -/
def CoreLayout.core (layout : CoreLayout) (busy : Int → Bool) : Core where
  id := layout.id
  totalThreads := layout.indices.length
  free := layout.indices.all fun index => !busy index
  units := layout.indices.map fun index => ⟨index, busy index⟩
  processingUnitsOpen := layout.indices.countP fun index => !busy index

namespace CoreLayout

variable {layout : CoreLayout} {busy busy' : Int → Bool} {index : Int} {indices : List Int}

theorem id_mem (layout : CoreLayout) : layout.id ∈ layout.indices :=
  mem_of_mem_head? layout.first

theorem core_congr (same : ∀ index ∈ layout.indices, busy' index = busy index) :
    layout.core busy' = layout.core busy := by
  unfold core
  congr 1
  · rw [Bool.eq_iff_iff, all_eq_true, all_eq_true]
    constructor
    · intro idle index mem
      rw [← same index mem]
      exact idle index mem
    · intro idle index mem
      rw [same index mem]
      exact idle index mem
  · apply map_congr_left
    intro index mem
    rw [same index mem]
  · congr 1
    apply countP_congr
    intro index mem
    rw [same index mem]

/-- The first unit found gets the flag, and no other unit has its index. -/
theorem setFirst_found (busy : Int → Bool) (p : Pu → Bool) (nodup : indices.Nodup)
    (found : indices.find? (fun other => p ⟨other, busy other⟩) = some index) (flag : Bool) :
    setFirst p flag (indices.map fun index => ⟨index, busy index⟩) =
      indices.map fun other => ⟨other, update busy index flag other⟩ := by
  induction indices with
  | nil => contradiction
  | cons head rest ih =>
    obtain ⟨fresh, nodup⟩ := nodup_cons.mp nodup
    cases here : p ⟨head, busy head⟩ with
    | true =>
      simp only [find?_cons, here, Option.some.injEq] at found
      subst found
      simp only [map_cons, setFirst, here, if_true, update_self]
      congr 1
      apply map_congr_left
      intro other mem
      rw [update_of_ne (by rintro rfl; exact fresh mem)]
    | false =>
      simp only [find?_cons, here] at found
      have ne : head ≠ index := by
        rintro rfl
        exact fresh (mem_of_find?_eq_some found)
      simp only [map_cons, setFirst, here, Bool.false_eq_true, if_false,
        update_of_ne ne, ih nodup found]

theorem find?_index {p : Int → Bool} (mem : index ∈ indices) (holds : p index = true)
    (only : ∀ other, p other = true → other = index) : indices.find? p = some index := by
  cases found : indices.find? p with
  | none => exact absurd holds (find?_eq_none.mp found index mem)
  | some other => rw [only other (find?_some found)]

theorem countP_update_true {α : Type*} [DecidableEq α] {busy : α → Bool} {index : α}
    {indices : List α} (nodup : indices.Nodup) (mem : index ∈ indices) (idle : busy index = false) :
    (indices.countP fun other => !busy other) =
      (indices.countP fun other => !update busy index true other) + 1 := by
  have same : ∀ other, other ≠ index → (!update busy index true other) = !busy other := by
    intro other ne
    rw [update_of_ne ne]
  simpa [idle] using (Structure.countP_turned nodup mem same).symm

/-! ### Taking units -/

theorem reserveProcessingUnit_core (nodup : layout.indices.Nodup) (mem : index ∈ layout.indices)
    (idle : busy index = false) :
    (layout.core busy).reserveProcessingUnit index =
      some (layout.core (update busy index true)) := by
  have present : ((layout.core busy).units.any fun unit => decide (unit.index = index)) = true := by
    simpa [core] using mem
  have count := countP_update_true nodup mem idle
  have taken := setFirst_found busy (fun unit => decide (unit.index = index)) nodup
    (find?_index mem (by simp) (by simp)) true
  unfold Core.reserveProcessingUnit
  rw [if_pos present]
  simp only [core, taken, Option.some.injEq, Core.mk.injEq, true_and]
  refine ⟨?_, ?_⟩
  · symm
    rw [all_eq_false]
    exact ⟨index, mem, by simp⟩
  · omega

theorem reserveProcessingUnit_core_of_not_mem (absent : index ∉ layout.indices) :
    (layout.core busy).reserveProcessingUnit index = none := by
  unfold Core.reserveProcessingUnit
  rw [if_neg]
  simp only [core, any_map, any_eq_true, comp_apply, decide_eq_true_eq]
  rintro ⟨other, mem, rfl⟩
  exact absent mem

theorem getOpenProcessingUnit_core (nodup : layout.indices.Nodup)
    (found : layout.indices.find? (fun other => !busy other) = some index) :
    (layout.core busy).getOpenProcessingUnit =
      (some index, layout.core (update busy index true)) := by
  have mem := mem_of_find?_eq_some found
  have idle : busy index = false := by simpa using find?_some found
  have count := countP_update_true nodup mem idle
  have units : (layout.core busy).units.find? (fun unit => !unit.busy) =
      some ⟨index, busy index⟩ := by
    simp only [core, find?_map, comp_def, found, Option.map_some]
  unfold Core.getOpenProcessingUnit
  rw [units]
  simp only [core, setFirst_found busy (fun unit => !unit.busy) nodup found, Prod.mk.injEq,
    Core.mk.injEq, true_and]
  refine ⟨?_, ?_⟩
  · symm
    rw [all_eq_false]
    exact ⟨index, mem, by simp⟩
  · omega

theorem core_free_eq_false (mem : index ∈ layout.indices) (taken : busy index = true) :
    (layout.core busy).free = false := by
  simp only [core]
  rw [all_eq_false]
  exact ⟨index, mem, by simp [taken]⟩

theorem getOpenProcessingUnit_core_of_full
    (full : layout.indices.find? (fun other => !busy other) = none) :
    (layout.core busy).getOpenProcessingUnit = (none, layout.core busy) := by
  have all : ∀ index ∈ layout.indices, busy index = true := by
    simpa using full
  have units : (layout.core busy).units.find? (fun unit => !unit.busy) = none := by
    simp only [core, find?_map, comp_def, full, Option.map_none]
  have taken := core_free_eq_false layout.id_mem (all layout.id layout.id_mem)
  unfold Core.getOpenProcessingUnit
  rw [units]
  rw [← taken]

/-- With enough rounds every unit is taken. -/
theorem takeUnits_core (nodup : layout.indices.Nodup) {rounds : Nat}
    (enough : (layout.indices.countP fun other => !busy other) < rounds) :
    (layout.core busy).takeUnits rounds = layout.core fun _ => true := by
  induction rounds generalizing busy with
  | zero => contradiction
  | succ rounds ih =>
    unfold Core.takeUnits
    cases found : layout.indices.find? (fun other => !busy other) with
    | none =>
      rw [getOpenProcessingUnit_core_of_full found, if_pos rfl]
      apply core_congr
      intro index mem
      symm
      simpa using find?_eq_none.mp found index mem
    | some index =>
      have count := countP_update_true nodup (mem_of_find?_eq_some found)
        (by simpa using find?_some found)
      rw [getOpenProcessingUnit_core nodup found, if_neg (by simp)]
      exact ih (by omega)

/-! ### Freeing units -/

theorem any_busy_iff :
    ((layout.core busy).units.any fun unit => decide (unit.index = index) && unit.busy) = true ↔
      index ∈ layout.indices ∧ busy index = true := by
  simp only [core, any_map, any_eq_true, comp_apply, Bool.and_eq_true, decide_eq_true_eq]
  constructor
  · rintro ⟨other, mem, rfl, taken⟩
    exact ⟨mem, taken⟩
  · rintro ⟨mem, taken⟩
    exact ⟨index, mem, rfl, taken⟩

theorem core_update_of_not_mem (absent : index ∉ layout.indices) (flag : Bool) :
    layout.core (update busy index flag) = layout.core busy := by
  apply core_congr
  intro other mem
  rw [update_of_ne (by rintro rfl; exact absent mem)]

theorem core_free_iff :
    (layout.core busy).free = true ↔ ∀ index ∈ layout.indices, busy index = false := by
  simp [core]

theorem freePuIndex_core_of_busy (nodup : layout.indices.Nodup) (mem : index ∈ layout.indices)
    (taken : busy index = true) :
    (layout.core busy).freePuIndex index =
      ⟨true, (layout.core (update busy index false)).free,
        layout.core (update busy index false)⟩ := by
  have count := countP_update_true nodup mem (update_self index false busy)
  rw [update_idem, ← taken, update_eq_self] at count
  have full : decide ((layout.core busy).totalThreads =
      (layout.core busy).processingUnitsOpen + 1) =
      (layout.core (update busy index false)).free := by
    rw [Bool.eq_iff_iff, decide_eq_true_iff, core_free_iff]
    have length := countP_eq_length (p := fun other => !update busy index false other)
      (l := layout.indices)
    simp only [Bool.not_eq_true'] at length
    rw [← length]
    simp only [core]
    omega
  have freed := setFirst_found busy (fun unit => decide (unit.index = index) && unit.busy) nodup
    (find?_index mem (by simp [taken]) (by simp +contextual)) false
  unfold Core.freePuIndex
  rw [if_neg (by rw [core_free_eq_false mem taken]; simp), if_pos (any_busy_iff.mpr ⟨mem, taken⟩)]
  dsimp only
  rw [full]
  simp only [core, freed, FreedPu.mk.injEq, Core.mk.injEq, true_and]
  omega

theorem freePuIndex_core_of_idle (idle : index ∈ layout.indices → busy index = false) :
    (layout.core busy).freePuIndex index =
      ⟨(layout.core busy).free, (layout.core busy).free, layout.core busy⟩ := by
  unfold Core.freePuIndex
  by_cases free : (layout.core busy).free = true
  · rw [if_pos free, free]
  · rw [if_neg free, if_neg]
    · rw [Bool.not_eq_true] at free
      rw [free]
    · intro found
      obtain ⟨mem, taken⟩ := any_busy_iff.mp found
      rw [idle mem] at taken
      contradiction

end CoreLayout

end Torque.Numa
