import Torque.Numa.Machine

/-!
# Chips as layouts with a set of busy units

The cores of a chip never change, apart from which of their units are busy.  The
lemmas of this module say what the loops over the cores and the devices of a
chip amount to in these terms, provided that no unit belongs to two cores and no
device is listed twice.
-/

namespace Torque.Numa

open Function List CoreLayout

section

variable {layouts : List CoreLayout} {layout : CoreLayout} {busy busy' : Int → Bool} {index : Int}
  {position : Nat} {freed : List Int}

/-- Cores that have none of the units whose state differs. -/
theorem map_core_congr
    (same : ∀ index ∈ layouts.flatMap CoreLayout.indices, busy' index = busy index) :
    layouts.map (fun layout => layout.core busy') = layouts.map fun layout => layout.core busy := by
  apply map_congr_left
  intro layout mem
  apply core_congr
  intro index inside
  exact same index (mem_flatMap.mpr ⟨layout, mem, inside⟩)

/-- What `Nodup` says about the first of several cores. -/
theorem nodup_cores_cons
    (distinct : ((layout :: layouts).flatMap CoreLayout.indices).Nodup) :
    layout.indices.Nodup ∧ (layouts.flatMap CoreLayout.indices).Nodup ∧
      ∀ index ∈ layout.indices, index ∉ layouts.flatMap CoreLayout.indices := by
  rw [flatMap_cons, nodup_append] at distinct
  obtain ⟨first, rest, apart⟩ := distinct
  exact ⟨first, rest, fun index mem mem' => apart index mem index mem' rfl⟩

theorem update_eq_of_not_mem {indices : List Int} (absent : index ∉ indices) (flag : Bool) :
    ∀ other ∈ indices, update busy index flag other = busy other := by
  intro other mem
  exact update_of_ne (ne_of_mem_of_not_mem mem absent) ..

section

variable (distinct : (layouts.flatMap CoreLayout.indices).Nodup)
  (mem : index ∈ layouts.flatMap CoreLayout.indices)
include distinct mem

theorem reserveUnit_cores (idle : busy index = false) :
    Booking.reserveUnit index (layouts.map fun layout => layout.core busy) =
      some (layouts.map fun layout => layout.core (update busy index true)) := by
  induction layouts with
  | nil => contradiction
  | cons layout layouts ih =>
    obtain ⟨first, rest, apart⟩ := nodup_cores_cons distinct
    simp only [map_cons, Booking.reserveUnit]
    by_cases here : index ∈ layout.indices
    · rw [reserveProcessingUnit_core first here idle,
        map_core_congr (update_eq_of_not_mem (apart index here) true)]
    · have later : index ∈ layouts.flatMap indices := by
        simpa [here] using mem
      rw [reserveProcessingUnit_core_of_not_mem here, ih rest later, core_update_of_not_mem here]
      rfl

theorem freeUnitIndex_cores (taken : busy index = true) :
    freeUnitIndex index (layouts.map fun layout => layout.core busy) =
      layouts.map fun layout => layout.core (update busy index false) := by
  induction layouts with
  | nil => contradiction
  | cons layout layouts ih =>
    obtain ⟨first, rest, apart⟩ := nodup_cores_cons distinct
    simp only [map_cons, freeUnitIndex]
    by_cases here : index ∈ layout.indices
    · rw [if_neg (by rw [core_free_eq_false here taken]; simp),
        freePuIndex_core_of_busy first here taken, if_pos rfl,
        map_core_congr (update_eq_of_not_mem (apart index here) false)]
    · have later : index ∈ layouts.flatMap indices := by
        simpa [here] using mem
      rw [freePuIndex_core_of_idle (fun mem => absurd mem here), ih rest later,
        core_update_of_not_mem here]
      split
      · rfl
      · rfl

end

/-! ## Whole cores -/

/-- The units in `freed` are no longer busy. -/
def without (busy : Int → Bool) (freed : List Int) (index : Int) : Bool :=
  busy index && decide (index ∉ freed)

@[simp]
theorem without_nil : without busy [] = busy := by
  funext index
  simp [without]

theorem without_update (fresh : index ∉ freed) :
    without (update busy index false) freed = without busy (index :: freed) := by
  funext other
  by_cases same : other = index
  · subst same
    simp [without]
  · simp [without, same]

theorem freeUnits_core_loop (nodup : layout.indices.Nodup) (distinct : freed.Nodup)
    (taken : ∀ index ∈ freed, index ∈ layout.indices ∧ busy index = true) (flag : Bool) :
    freed.foldl
        (fun state index =>
          ((state.1.freePuIndex index).core, (state.1.freePuIndex index).coreIsNowFree))
        (layout.core busy, flag) =
      (layout.core (without busy freed),
        if freed = [] then flag else (layout.core (without busy freed)).free) := by
  induction freed generalizing busy flag with
  | nil => simp
  | cons index freed ih =>
    obtain ⟨fresh, distinct⟩ := nodup_cons.mp distinct
    obtain ⟨mem, busyIndex⟩ := taken index mem_cons_self
    have others : ∀ other ∈ freed,
        other ∈ layout.indices ∧ update busy index false other = true := by
      intro other inside
      rw [update_eq_of_not_mem fresh false other inside]
      exact taken other (mem_cons_of_mem _ inside)
    rw [foldl_cons, freePuIndex_core_of_busy nodup mem busyIndex,
      ih distinct others, without_update fresh, if_neg (cons_ne_nil index freed)]
    cases freed with
    | nil => rw [if_pos rfl, ← without_update fresh, without_nil]
    | cons _ _ => rw [if_neg (cons_ne_nil _ _)]

theorem freeUnits_core (nodup : layout.indices.Nodup)
    (taken : ∀ index ∈ layout.indices, busy index = true) :
    (layout.core busy).freeUnits = (layout.core (without busy layout.indices), true) := by
  have indices : (layout.core busy).units.map Pu.index = layout.indices := by
    simp [core, comp_def]
  have nonempty : layout.indices ≠ [] := ne_nil_of_mem layout.id_mem
  have free : (layout.core (without busy layout.indices)).free = true := by
    rw [core_free_iff]
    intro index mem
    simp [without, mem]
  rw [Core.freeUnits, indices,
    freeUnits_core_loop nodup nodup (fun index mem => ⟨mem, taken index mem⟩) false,
    if_neg nonempty, free]

variable (distinct : (layouts.flatMap CoreLayout.indices).Nodup)
include distinct

/-- The core that is named by one of its units is the one found by that name. -/
theorem freeCoreIndex_cores (mem : layout ∈ layouts)
    (taken : ∀ index ∈ layout.indices, busy index = true) :
    freeCoreIndex layout.id (layouts.map fun layout => layout.core busy) =
      (layouts.map fun other => other.core (without busy layout.indices), true) := by
  induction layouts with
  | nil => contradiction
  | cons head layouts ih =>
    obtain ⟨first, rest, apart⟩ := nodup_cores_cons distinct
    simp only [map_cons, freeCoreIndex]
    by_cases here : layout = head
    · subst here
      have others : layouts.map (fun other => other.core (without busy layout.indices)) =
          layouts.map fun other => other.core busy := by
        apply map_core_congr
        intro index inside
        have outside : index ∉ layout.indices := fun mem => apart index mem inside
        simp [without, outside]
      rw [if_neg, freeUnits_core first taken, if_pos rfl, others]
      rw [core_free_eq_false layout.id_mem (taken layout.id layout.id_mem)]
      simp [core]
    · have later : layout ∈ layouts := (mem_cons.mp mem).resolve_left here
      have unlike : ∀ index ∈ head.indices, index ∉ layout.indices := fun index inside mem =>
        apart index inside (mem_flatMap.mpr ⟨layout, later, mem⟩)
      have name : (head.core busy).id ≠ layout.id := by
        intro same
        exact unlike head.id head.id_mem (by rw [show head.id = layout.id from same]; exact layout.id_mem)
      have kept : head.core (without busy layout.indices) = head.core busy := by
        apply core_congr
        intro index inside
        simp [without, unlike index inside]
      rw [if_pos (Or.inr name), ih rest later, kept]

/-- Exchanging one core for the same core with other busy units. -/
theorem set_core (found : layouts[position]? = some layout)
    (same : ∀ index ∉ layout.indices, busy' index = busy index) :
    (layouts.map fun layout => layout.core busy).set position (layout.core busy') =
      layouts.map fun layout => layout.core busy' := by
  induction layouts generalizing position with
  | nil => simp at found
  | cons head layouts ih =>
    obtain ⟨first, rest, apart⟩ := nodup_cores_cons distinct
    cases position with
    | zero =>
      have here : head = layout := by simpa using found
      subst here
      rw [map_cons, set_cons_zero, map_cons]
      congr 1
      symm
      apply map_core_congr
      intro index inside
      exact same index fun mem => apart index mem inside
    | succ position =>
      have found : layouts[position]? = some layout := by simpa using found
      have later := mem_of_getElem? found
      have kept : head.core busy' = head.core busy := by
        apply core_congr
        intro index inside
        apply same index
        intro mem
        exact apart index inside (mem_flatMap.mpr ⟨layout, later, mem⟩)
      rw [map_cons, set_cons_succ, ih rest found, map_cons, kept]

end

/-! ## Devices -/

/-- A device that never changes, apart from being busy. -/
abbrev DeviceName := DeviceType × Int

/-- The device with its flag. -/
def deviceOf (busy : DeviceName → Bool) (name : DeviceName) : Device :=
  ⟨name.1, name.2, busy name⟩

section

variable {names : List DeviceName} {name : DeviceName} {busy : DeviceName → Bool}
  {type : DeviceType}

theorem deviceOf_update_of_ne {other : DeviceName} (ne : other ≠ name) (flag : Bool) :
    deviceOf (update busy name flag) other = deviceOf busy other := by
  rw [deviceOf, update_of_ne ne, deviceOf]

theorem map_deviceOf_update (fresh : name ∉ names) (flag : Bool) :
    names.map (deviceOf (update busy name flag)) = names.map (deviceOf busy) :=
  map_congr_left fun _ mem => deviceOf_update_of_ne (ne_of_mem_of_not_mem mem fresh) flag

/-- The device that is taken is the first one of its type that is not busy. -/
theorem takeDevice_devices (nodup : names.Nodup) :
    takeDevice type (names.map (deviceOf busy)) =
      (names.find? fun name => decide (name.1 = type) && !busy name).map fun name =>
        (name.2, names.map (deviceOf (update busy name true))) := by
  induction names with
  | nil => rfl
  | cons head names ih =>
    obtain ⟨fresh, nodup⟩ := nodup_cons.mp nodup
    simp only [map_cons, takeDevice]
    by_cases here : (deviceOf busy head).type = type ∧ (deviceOf busy head).busy = false
    · have others := @map_deviceOf_update names head busy fresh true
      rw [if_pos here, find?_cons_of_pos (by simpa [deviceOf] using here)]
      simp [deviceOf, others]
    · rw [if_neg here, find?_cons_of_neg (by simpa [deviceOf] using here), ih nodup]
      cases found : names.find? fun name => decide (name.1 = type) && !busy name with
      | none => rfl
      | some name =>
        have ne : head ≠ name := by
          rintro rfl
          exact fresh (mem_of_find?_eq_some found)
        simp [deviceOf_update_of_ne ne]

theorem map_free_devices (id : Int) :
    ((names.map (deviceOf busy)).map fun device =>
        if device.type = type ∧ device.id = id then { device with busy := false } else device) =
      names.map (deviceOf (update busy (type, id) false)) := by
  rw [map_map]
  apply map_congr_left
  intro name _
  by_cases same : name = (type, id)
  · subst same
    simp [deviceOf]
  · have other : ¬((deviceOf busy name).type = type ∧ (deviceOf busy name).id = id) := by
      rintro ⟨rfl, rfl⟩
      exact same rfl
    rw [deviceOf_update_of_ne same, comp_apply, if_neg other]

theorem countP_free_devices (busy : DeviceName → Bool) (nodup : names.Nodup) (mem : name ∈ names) :
    (names.map (deviceOf busy)).countP
      (fun device => decide (device.type = name.1 ∧ device.id = name.2)) = 1 := by
  rw [countP_map]
  calc names.countP _ = names.count name := by
        apply countP_congr
        intro other _
        rw [comp_apply, decide_eq_true_iff, beq_iff_eq, Prod.ext_iff]
        rfl
    _ = 1 := count_eq_one_of_mem nodup mem

end

end Torque.Numa
