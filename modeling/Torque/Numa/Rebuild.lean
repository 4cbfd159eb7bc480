import Torque.Numa.ReadBack
import Mathlib.Algebra.Order.BigOperators.Group.List

/-!
# Chips rebuilt from JSON

The allocations of a chip say what is held of it, so that the chip can be worked out again from
its layout and its allocations.  The JSON does not say all of what an allocation holds, however:
the processors that are only set aside are left out, of a whole core only the first unit is
reserved again, a chip is marked as exclusive only if an allocation asks for it, and the threads
are dealt out evenly to the cores.  A chip to which none of this applies is `Portable`.  Its
rebuilt copy agrees with it, and goes on doing so as jobs are freed.
-/

namespace Torque.Numa

open Torque.Structure Torque.Transition Function List

/-! ## Counting one allocation again -/

section

variable {names : List DeviceName} {name : DeviceName} {busy : DeviceName → Bool}

theorem setDevice_devices (nodup : names.Nodup) (mem : name ∈ names) :
    setDevice name.1 name.2 (names.map (deviceOf busy)) =
      some (names.map (deviceOf (update busy name true))) := by
  induction names with
  | nil => contradiction
  | cons head names ih =>
    obtain ⟨fresh, nodup⟩ := nodup_cons.mp nodup
    rw [map_cons, setDevice]
    by_cases here : head = name
    · subst here
      rw [if_pos ⟨rfl, rfl⟩, map_cons, map_deviceOf_update fresh]
      simp [deviceOf]
    · have unlike : ¬((deviceOf busy head).type = name.1 ∧ (deviceOf busy head).id = name.2) := by
        rintro ⟨type, id⟩
        exact here (Prod.ext type id)
      rw [if_neg unlike, ih nodup ((mem_cons.mp mem).resolve_left (Ne.symm here)),
        map_cons, deviceOf_update_of_ne here]
      rfl

end

namespace ChipLayout

variable {layout : ChipLayout} {chip : Chip} {t : Tally} {name : Int} {records : List Allocation}
  {a other : Allocation}

/-- The core with this name has no unit but the one that names it. -/
def Single (layout : ChipLayout) (name : Int) : Prop :=
  ∃ core ∈ layout.cores, core.indices = [name]

theorem Single.id {core : CoreLayout} (listed : core.indices = [name]) : core.id = name := by
  have first := core.first
  rw [listed] at first
  exact (Option.some.inj first).symm

theorem Single.coreUnits (single : layout.Single name) : layout.coreUnits name = [name] := by
  obtain ⟨core, mem, listed⟩ := single
  rw [← Single.id listed, coreUnits_id mem, listed, Single.id listed]

theorem Shows.threadsBeside (shows : layout.Shows chip t) (single : layout.Single name) :
    chip.threadsBeside name = 1 := by
  obtain ⟨core, mem, listed⟩ := single
  unfold Chip.threadsBeside
  rw [shows.cores, find?_map]
  have has : ∀ other : CoreLayout,
      ((other.core (busyUnit t.held)).units.any fun unit => decide (unit.index = name)) = true ↔
        name ∈ other.indices := by
    intro other
    simp [CoreLayout.core]
  cases found : layout.cores.find? ((fun core => core.units.any fun unit =>
      decide (unit.index = name)) ∘ fun core => core.core (busyUnit t.held)) with
  | none =>
    have missing := find?_eq_none.mp found core mem
    rw [comp_apply, has, listed] at missing
    exact absurd (mem_singleton_self name) missing
  | some other =>
    have inside : name ∈ other.indices := by
      have holds := find?_some found
      rw [comp_apply, has] at holds
      exact holds
    have same : other = core :=
      eq_of_nodup_flatMap layout.distinct (mem_of_find?_eq_some found) mem inside
        (by rw [listed]; exact mem_singleton_self name)
    rw [same, Option.map_some, Option.map_some, Option.getD_some]
    simp [CoreLayout.core, listed]

theorem Shows.recount {b : Booking} (shows : layout.Shows b.chip t) {index : Int}
    (mem : index ∈ layout.indices) (fresh : Resource.unit index ∉ t.held)
    (single : b.alloc.coresOnly = true → layout.Single index) :
    layout.Shows (b.recount index).chip
        ⟨.unit index :: t.held, t.cores + (if b.alloc.coresOnly then 1 else 0), t.threads + 1,
          t.memory⟩ ∧
      ∃ cores cpus, (b.recount index).alloc =
        { b.alloc with threads := b.alloc.threads + 1, cores := cores, cpus := cpus } := by
  have idle : busyUnit t.held index = false := by simpa [busyUnit] using fresh
  have next := shows.takeUnit mem fresh
  unfold Booking.recount
  rw [shows.cores, reserveUnit_cores layout.distinct mem idle]
  dsimp only
  split
  · next whole =>
    rw [shows.threadsBeside (single whole)]
    refine ⟨{ next with availableCores := ?_ }, _, _, rfl⟩
    have count := shows.availableCores
    dsimp only
    omega
  · rw [Int.add_zero]
    exact ⟨next, _, _, rfl⟩

theorem recounts_keep (b : Booking) (indices : List Int) :
    (indices.foldl Booking.recount b).chip.allocations = b.chip.allocations ∧
      (indices.foldl Booking.recount b).chip.chipExclusive = b.chip.chipExclusive := by
  refine run_invariant (fun b' : Booking => b'.chip.allocations = b.chip.allocations ∧
    b'.chip.chipExclusive = b.chip.chipExclusive) ⟨rfl, rfl⟩ ?_ indices
  intro b' index same
  unfold Booking.recount
  split
  · split
    · exact same
    · exact same
  · exact same

/-- The processors of an allocation are counted again. -/
theorem Shows.recounts {indices : List Int} {b : Booking} (shows : layout.Shows b.chip t)
    (distinct : (indices.map Resource.unit ++ t.held).Nodup)
    (known : ∀ index ∈ indices, index ∈ layout.indices)
    (single : b.alloc.coresOnly = true → ∀ index ∈ indices, layout.Single index) :
    layout.Shows (indices.foldl Booking.recount b).chip
        ⟨indices.map .unit ++ t.held,
          t.cores + (if b.alloc.coresOnly then (indices.length : Int) else 0),
          t.threads + indices.length, t.memory⟩ ∧
      ∃ cores cpus, (indices.foldl Booking.recount b).alloc =
        { b.alloc with
          threads := b.alloc.threads + indices.length, cores := cores, cpus := cpus } := by
  induction indices generalizing b t with
  | nil =>
    constructor
    · simpa using shows
    · exact ⟨_, _, by rw [length_nil, Int.natCast_zero, Int.add_zero]; rfl⟩
  | cons index indices ih =>
    obtain ⟨fresh, rest⟩ := nodup_cons.mp distinct
    obtain ⟨next, _, _, one⟩ := shows.recount (known index mem_cons_self)
      (fun held => fresh (mem_append_right _ held))
      (fun whole => single whole index mem_cons_self)
    have whole : (b.recount index).alloc.coresOnly = b.alloc.coresOnly := by rw [one]
    obtain ⟨shown, cpus, units, counted⟩ := ih next
      (perm_middle.nodup_iff.mpr distinct)
      (forall_mem_cons.mp known).2
      (fun wholeCores other inside =>
        single (whole.symm.trans wholeCores) other (mem_cons_of_mem _ inside))
    have ordered := shown.perm perm_middle
    have cores : t.cores + (if b.alloc.coresOnly then 1 else 0) +
        (if b.alloc.coresOnly then (indices.length : Int) else 0) =
          t.cores + if b.alloc.coresOnly then ((index :: indices).length : Int) else 0 := by
      rw [length_cons]
      split <;> omega
    have threads : t.threads + 1 + indices.length = t.threads + (index :: indices).length := by
      rw [length_cons]
      omega
    rw [foldl_cons]
    rw [whole, cores, threads] at ordered
    refine ⟨ordered, cpus, units, ?_⟩
    rw [counted, one, length_cons, Int.add_assoc, Int.natCast_succ, Int.add_comm 1]

/-- The accelerators of an allocation are counted again. -/
theorem Shows.recountDevices (shows : layout.Shows chip t) (type : DeviceType) {ids : List Int}
    (distinct : ((ids.map fun id => deviceResource (type, id)) ++ t.held).Nodup)
    (known : ∀ id ∈ ids, (type, id) ∈ layout.devices) :
    layout.Shows (ids.foldl (Chip.recountDevice type) chip)
      { t with held := (ids.map fun id => deviceResource (type, id)) ++ t.held } := by
  induction ids generalizing chip t with
  | nil => exact shows
  | cons id ids ih =>
    obtain ⟨fresh, _⟩ := nodup_cons.mp distinct
    have here := known id mem_cons_self
    have next := shows.takeDevice here fun held => fresh (mem_append_right _ held)
    have counted : chip.recountDevice type id = chip.withDevices (layout.devices.map
        (deviceOf (update (busyDevice t.held) (type, id) true))) type (-1) := by
      unfold Chip.recountDevice
      rw [shows.devices, setDevice_devices layout.distinctDevices here]
    rw [foldl_cons, counted]
    exact (ih next (perm_middle.nodup_iff.mpr distinct)
      (forall_mem_cons.mp known).2).perm perm_middle

theorem recountDevices_keep (type : DeviceType) (chip : Chip) (ids : List Int) :
    (ids.foldl (Chip.recountDevice type) chip).allocations = chip.allocations ∧
      (ids.foldl (Chip.recountDevice type) chip).chipExclusive = chip.chipExclusive := by
  refine run_invariant (fun chip' : Chip => chip'.allocations = chip.allocations ∧
    chip'.chipExclusive = chip.chipExclusive) ⟨rfl, rfl⟩ ?_ ids
  intro chip' id same
  unfold Chip.recountDevice
  split
  · exact same
  · exact same

/-- All that an allocation holds is put down: nothing is only set aside, and whole cores are
single units. -/
structure Stated (layout : ChipLayout) (a : Allocation) : Prop where
  pinned : a.cpuPlaceIndices = []
  single : a.coresOnly = true → ∀ index ∈ a.cpuIndices, layout.Single index
  counted : a.threads = (layout.unitsOf a).length

theorem Stated.processors (stated : layout.Stated a) : a.processors = a.cpuIndices := by
  rw [Allocation.processors, stated.pinned, append_nil]

theorem Stated.unitsOf (stated : layout.Stated a) : layout.unitsOf a = a.cpuIndices := by
  unfold ChipLayout.unitsOf
  rw [stated.processors]
  calc a.cpuIndices.flatMap (layout.named a.coresOnly)
      = a.cpuIndices.flatMap fun index => [index] := by
        apply flatMap_congr
        intro index mem
        unfold named
        split
        · next whole => exact (stated.single whole index mem).coreUnits
        · rfl
    _ = a.cpuIndices := flatMap_singleton' _

theorem Stated.holds (stated : layout.Stated a) :
    layout.holds a = a.cpuIndices.map .unit ++ a.gpuIndices.map .gpu ++ a.micIndices.map .mic := by
  have units := stated.unitsOf
  unfold ChipLayout.unitsOf at units
  rw [ChipLayout.holds, units]

/-- Two allocations that hold the same. -/
structure Alike (a other : Allocation) : Prop where
  jobid : other.jobid = a.jobid
  coresOnly : other.coresOnly = a.coresOnly
  processors : other.processors = a.processors
  gpuIndices : other.gpuIndices = a.gpuIndices
  micIndices : other.micIndices = a.micIndices
  memory : other.memory = a.memory
  threads : other.threads = a.threads

/-- An allocation that was read is counted as it was before. -/
theorem Shows.reserveAllocationResources (shows : layout.Shows chip t)
    (stated : layout.Stated a) (distinct : (layout.holds a ++ t.held).Nodup)
    (known : ∀ resource ∈ layout.holds a, resource ∈ layout.resources)
    (enough : a.memory ≤ chip.availableMemory) :
    layout.Shows (chip.reserveAllocationResources a.reread).chip
        ⟨layout.holds a ++ t.held, t.cores + coreCount a, t.threads + a.threads,
          t.memory + a.memory⟩ ∧
      Alike a (chip.reserveAllocationResources a.reread).alloc := by
  rw [stated.holds] at distinct known
  have order : (a.micIndices.map Resource.mic ++ (a.gpuIndices.map Resource.gpu ++
      (a.cpuIndices.map Resource.unit ++ t.held))).Perm
        (a.cpuIndices.map .unit ++ a.gpuIndices.map .gpu ++ a.micIndices.map .mic ++ t.held) := by
    rw [perm_iff_count]
    intro resource
    simp only [count_append]
    omega
  have mics := order.nodup_iff.mpr distinct
  have gpus := (nodup_append.mp mics).2.1
  have units := (nodup_append.mp gpus).2.1
  -- the processors, the memory, the GPUs and the MICs, one after the other
  obtain ⟨counted, _, _, booked⟩ := shows.recounts (b := ⟨chip, a.reread⟩) units
    (fun index mem => mem_indices_of_mem_resources (known _ (by simp [mem]))) stated.single
  have left : a.memory ≤
      (a.cpuIndices.foldl Booking.recount ⟨chip, a.reread⟩).chip.availableMemory := by
    have before := shows.availableMemory
    have after := counted.availableMemory
    dsimp only at after
    omega
  have withGpus := (counted.takeMemory left).recountDevices .gpu gpus
    fun id mem => mem_devices_of_mem_resources (known (Resource.gpu id) (by simp [mem]))
  have withMics := withGpus.recountDevices .mic mics
    fun id mem => mem_devices_of_mem_resources (known (Resource.mic id) (by simp [mem]))
  have number : a.threads = a.cpuIndices.length := by rw [stated.counted, stated.unitsOf]
  have whole : coreCount a = if a.coresOnly then (a.cpuIndices.length : Int) else 0 := by
    rw [coreCount, stated.processors]
  constructor
  · rw [stated.holds, number, whole]
    exact (withMics.perm order).relabel _ _
  · rw [show (chip.reserveAllocationResources a.reread).alloc = _ from booked]
    refine ⟨rfl, rfl, ?_, rfl, rfl, rfl, ?_⟩
    · rw [stated.processors]
      exact append_nil _
    · rw [number]
      exact Int.zero_add _

theorem reserveAllocationResources_keeps (chip : Chip) (a : Allocation) :
    (chip.reserveAllocationResources a).chip.allocations = chip.allocations ∧
      (chip.reserveAllocationResources a).chip.chipExclusive =
        (chip.chipExclusive || decide (a.placeType.practical = .chip)) := by
  have cpus := recounts_keep ⟨chip, a⟩ a.cpuIndices
  have gpus := recountDevices_keep .gpu
  have mics := recountDevices_keep .mic
  constructor
  · exact (mics _ _).1.trans ((gpus _ _).1.trans cpus.1)
  · exact congrArg (· || decide (a.placeType.practical = .chip))
      ((mics _ _).2.trans ((gpus _ _).2.trans cpus.2))

/-! ## Counting all of them -/

/-- The body of the loop of `adjust_open_resources`. -/
def recordAgain (chip : Chip) (a : Allocation) : Chip :=
  { (chip.reserveAllocationResources a).chip with
    allocations := (chip.reserveAllocationResources a).chip.allocations ++
      [(chip.reserveAllocationResources a).alloc] }

/-- A chip on which some of the records have been counted again. -/
structure Recounted (layout : ChipLayout) (records : List Allocation) (chip : Chip) : Prop where
  shows : layout.Shows chip (layout.tally records)
  alike : List.Forall₂ Alike records chip.allocations
  marked : chip.chipExclusive = records.any fun a => decide (a.placeType.practical = .chip)

/-- The chip has what the records hold. -/
structure Fits (layout : ChipLayout) (records : List Allocation) : Prop where
  distinct : (layout.tally records).held.Nodup
  known : ∀ resource ∈ (layout.tally records).held, resource ∈ layout.resources
  enough : (layout.tally records).memory ≤ layout.memory

theorem Recounted.recordAgain (recounted : layout.Recounted records chip)
    (stated : layout.Stated a) (fits : layout.Fits (records ++ [a])) :
    layout.Recounted (records ++ [a]) (recordAgain chip a.reread) := by
  obtain ⟨distinct, known, enough⟩ := fits
  rw [tally_concat] at distinct known enough
  have total := recounted.shows.availableMemory
  obtain ⟨shown, alike⟩ := recounted.shows.reserveAllocationResources stated
    (perm_append_comm.nodup_iff.mp distinct)
    (fun resource mem => known resource (mem_append_right _ mem))
    (by dsimp only at enough; omega)
  obtain ⟨kept, mark⟩ := reserveAllocationResources_keeps chip a.reread
  constructor
  · rw [tally_concat]
    exact (shown.perm perm_append_comm).relabel _ _
  · unfold ChipLayout.recordAgain
    rw [kept]
    exact rel_append recounted.alike (.cons alike .nil)
  · rw [any_append, ← recounted.marked, any_cons, any_nil, Bool.or_false]
    exact mark

theorem Recounted.foldl {rest : List Allocation} (recounted : layout.Recounted records chip)
    (stated : ∀ a ∈ rest, layout.Stated a) (fits : layout.Fits (records ++ rest)) :
    layout.Recounted (records ++ rest)
      ((rest.map Allocation.reread).foldl ChipLayout.recordAgain chip) := by
  induction rest generalizing records chip with
  | nil =>
    rw [append_nil]
    exact recounted
  | cons a rest ih =>
    rw [append_cons] at fits ⊢
    -- what is held after one more is part of what is held in the end
    have part : (layout.tally (records ++ [a])).held.Sublist
        (layout.tally (records ++ [a] ++ rest)).held := by
      simp only [tally, flatMap_append]
      exact sublist_append_left _ _
    have memory : (layout.tally (records ++ [a])).memory ≤
        (layout.tally (records ++ [a] ++ rest)).memory := by
      simp only [tally, map_append, sum_append]
      exact Nat.le_add_right _ _
    have next := recounted.recordAgain (stated a mem_cons_self) ⟨fits.distinct.sublist part,
      fun resource mem => fits.known resource (part.subset mem), memory.trans fits.enough⟩
    exact ih next (forall_mem_cons.mp stated).2 fits

/-- The idle chip, with the records as they were read, becomes a chip on which all of them are
counted. -/
theorem Recounted.adjustOpenResources (stated : ∀ a ∈ records, layout.Stated a)
    (fits : layout.Fits records) :
    layout.Recounted records
      { layout.idleChip with allocations := records.map Allocation.reread }.adjustOpenResources := by
  have idle : layout.Recounted [] layout.idleChip := ⟨(accounts_idleChip layout).shows, .nil, rfl⟩
  exact idle.foldl stated fits

/-! ## Two chips that hold the same -/

theorem Alike.holds (alike : Alike a other) : layout.holds other = layout.holds a := by
  unfold ChipLayout.holds
  rw [alike.processors, alike.coresOnly, alike.gpuIndices, alike.micIndices]

theorem Alike.coreCount (alike : Alike a other) : coreCount other = coreCount a := by
  unfold ChipLayout.coreCount
  rw [alike.coresOnly, alike.processors]

/-- Records that hold the same have one tally. -/
theorem tally_of_alike {others : List Allocation} (alike : List.Forall₂ Alike records others) :
    layout.tally others = layout.tally records := by
  induction alike with
  | nil => rfl
  | cons one _ ih =>
    simp only [tally, Tally.mk.injEq, flatMap_cons, map_cons, sum_cons] at ih ⊢
    rw [one.holds, one.coreCount, one.threads, one.memory, ih.1, ih.2.1, ih.2.2.1, ih.2.2.2]
    exact ⟨rfl, rfl, rfl, rfl⟩

/-- A chip and its rebuilt copy. -/
structure Twins (layout : ChipLayout) (chip rebuilt : Chip) : Prop where
  accounts : layout.Accounts chip chip.allocations
  again : layout.sorted.Accounts rebuilt rebuilt.allocations
  alike : List.Forall₂ Alike chip.allocations rebuilt.allocations
  marked : rebuilt.chipExclusive = chip.chipExclusive

theorem Recounted.accounts (recounted : layout.Recounted records chip)
    (named : ∀ a ∈ records, layout.WellNamed a)
    (counted : ∀ a ∈ records, a.threads = (layout.unitsOf a).length) :
    layout.Accounts chip chip.allocations where
  shows := by
    rw [tally_of_alike recounted.alike]
    exact recounted.shows
  named := by
    refine forall_mem_right ?_ ((forall₂_and_left _ _).mpr ⟨named, recounted.alike⟩)
    rintro a other ⟨named, alike⟩ whole name mem
    rw [alike.processors] at mem
    exact named (alike.coresOnly.symm.trans whole) name mem
  counted := by
    refine forall_mem_right ?_ ((forall₂_and_left _ _).mpr ⟨counted, recounted.alike⟩)
    rintro a other ⟨counted, alike⟩
    unfold unitsOf at counted ⊢
    rw [alike.threads, alike.processors, alike.coresOnly, counted]

variable {rebuilt : Chip} (twins : layout.Twins chip rebuilt)
include twins

theorem Twins.freeTask (jobid : String) :
    layout.Twins (chip.freeTask jobid) (rebuilt.freeTask jobid) := by
  have left : List.Forall₂ Alike (chip.freeTask jobid).allocations
      (rebuilt.freeTask jobid).allocations := by
    refine rel_filter (fun a other alike => ?_) twins.alike
    dsimp only
    rw [alike.jobid]
  refine ⟨twins.accounts.freeTask jobid, twins.again.freeTask jobid, left, ?_⟩
  have mark : ∀ chip : Chip, (chip.freeTask jobid).chipExclusive =
      if (chip.freeTask jobid).allocations = [] then false else chip.chipExclusive := fun _ => rfl
  rw [mark, mark, twins.marked]
  have empty : (rebuilt.freeTask jobid).allocations = [] ↔ (chip.freeTask jobid).allocations = [] := by
    rw [← length_eq_zero_iff, ← length_eq_zero_iff, left.length_eq]
  simp only [empty]

theorem Twins.freeTasks (jobids : List String) :
    layout.Twins (jobids.foldl Chip.freeTask chip) (jobids.foldl Chip.freeTask rebuilt) := by
  induction jobids generalizing chip rebuilt with
  | nil => exact twins
  | cons jobid jobids ih => exact ih (twins.freeTask jobid)

end ChipLayout

/-! ## The same chip -/

namespace Chip

/-- `getAvailableCores`. -/
def getAvailableCores (chip : Chip) : Int :=
  if chip.chipExclusive then 0 else chip.availableCores

/-- `get_available_mics`. -/
def getAvailableMics (chip : Chip) : Int :=
  if chip.chipExclusive then 0 else chip.availableMics

/-- The same units and accelerators are busy, and as much is available. -/
structure Same (chip rebuilt : Chip) : Prop where
  units : ∀ index, (⟨index, true⟩ : Pu) ∈ rebuilt.units ↔ (⟨index, true⟩ : Pu) ∈ chip.units
  devices : ∀ type id,
    (⟨type, id, true⟩ : Device) ∈ rebuilt.devices ↔ (⟨type, id, true⟩ : Device) ∈ chip.devices
  threads : rebuilt.getAvailableThreads = chip.getAvailableThreads
  cores : rebuilt.getAvailableCores = chip.getAvailableCores
  memory : rebuilt.availableMemory = chip.availableMemory
  gpus : rebuilt.getAvailableGpus = chip.getAvailableGpus
  mics : rebuilt.getAvailableMics = chip.getAvailableMics

/-- The JSON says all that is needed to rebuild the chip. -/
@[mk_iff]
structure Portable (chip : Chip) : Prop where
  /-- The threads can be dealt out. -/
  nonempty : chip.cores ≠ []
  even : ∀ core ∈ chip.cores, ∀ other ∈ chip.cores, core.units.length = other.units.length
  /-- No processor is only set aside. -/
  pinned : ∀ a ∈ chip.allocations, a.cpuPlaceIndices = []
  /-- Whole cores have one unit. -/
  single : ∀ a ∈ chip.allocations, a.coresOnly = true → ∀ index ∈ a.cpuIndices,
    (chip.coreUnits index).length = 1
  /-- The chip is marked as exclusive for one of its allocations. -/
  marked : chip.chipExclusive =
    chip.allocations.any fun a => decide (a.placeType.practical = .chip)
  /-- The numbers are within their types. -/
  indices : ∀ unit ∈ chip.units, SmallIndex unit.index
  ids : ∀ device ∈ chip.devices, SmallIndex device.id
  memory : chip.memory < 2 ^ 63

instance (chip : Chip) : Decidable chip.Portable :=
  decidable_of_iff _ (portable_iff chip).symm

end Chip

namespace ChipLayout

variable {layout : ChipLayout} {chip rebuilt : Chip} {t : Tally}

theorem mem_units_iff (shows : layout.Shows chip t) (index : Int) :
    (⟨index, true⟩ : Pu) ∈ chip.units ↔ index ∈ layout.indices ∧ busyUnit t.held index = true := by
  rw [shows.units, mem_map]
  constructor
  · rintro ⟨other, mem, same⟩
    obtain ⟨rfl, busy⟩ := Pu.mk.inj same
    exact ⟨mem, busy⟩
  · rintro ⟨mem, busy⟩
    exact ⟨index, mem, by rw [busy]⟩

theorem mem_devices_iff (shows : layout.Shows chip t) (type : DeviceType) (id : Int) :
    (⟨type, id, true⟩ : Device) ∈ chip.devices ↔
      (type, id) ∈ layout.devices ∧ busyDevice t.held (type, id) = true := by
  rw [shows.devices, mem_map]
  constructor
  · rintro ⟨name, mem, same⟩
    obtain ⟨rfl, rfl, busy⟩ := Device.mk.inj same
    exact ⟨mem, busy⟩
  · rintro ⟨mem, busy⟩
    exact ⟨(type, id), mem, by rw [deviceOf, busy]⟩

theorem idle_sorted (type : DeviceType) (held : List Resource) :
    layout.sorted.idle type held = layout.idle type held := by
  unfold idle sorted
  cases type <;> simp +contextual

theorem Twins.same (twins : layout.Twins chip rebuilt) : chip.Same rebuilt := by
  have shows := twins.accounts.shows
  have again := twins.again.shows
  rw [tally_of_alike twins.alike] at again
  have threads := again.availableThreads.trans shows.availableThreads.symm
  have cores : rebuilt.availableCores = chip.availableCores :=
    again.availableCores.trans shows.availableCores.symm
  have devices : ∀ type, rebuilt.availableDevices type = chip.availableDevices type := by
    intro type
    rw [again.availableDevices, shows.availableDevices, idle_sorted]
    rfl
  constructor
  · intro index
    exact (mem_units_iff again index).trans (mem_units_iff shows index).symm
  · intro type id
    rw [mem_devices_iff again, mem_devices_iff shows, mem_devices_sorted]
    rfl
  · unfold Chip.getAvailableThreads
    rw [twins.marked, threads]
  · unfold Chip.getAvailableCores
    rw [twins.marked, cores]
  · exact Nat.add_right_cancel (again.availableMemory.trans shows.availableMemory.symm)
  · unfold Chip.getAvailableGpus
    rw [twins.marked, show rebuilt.availableGpus = chip.availableGpus from devices .gpu]
  · unfold Chip.getAvailableMics
    rw [twins.marked, show rebuilt.availableMics = chip.availableMics from devices .mic]

/-- What a portable chip says about its layout. -/
theorem Shows.printable (shows : layout.Shows chip t) (portable : chip.Portable) :
    layout.Printable where
  nonempty := by
    have cores := portable.nonempty
    rw [shows.cores] at cores
    exact fun empty => cores (by rw [empty]; rfl)
  even := by
    intro core mem other mem'
    have cores := portable.even (core.core (busyUnit t.held))
      (by rw [shows.cores]; exact mem_map_of_mem mem) (other.core (busyUnit t.held))
      (by rw [shows.cores]; exact mem_map_of_mem mem')
    simpa [CoreLayout.core] using cores
  indices := by
    intro index mem
    apply portable.indices ⟨index, busyUnit t.held index⟩
    rw [shows.units]
    exact mem_map_of_mem mem
  devices := by
    intro name mem
    apply portable.ids (deviceOf (busyDevice t.held) name)
    rw [shows.devices]
    exact mem_map_of_mem mem
  memory := by
    rw [← shows.memory]
    exact portable.memory

/-- All that the allocations of a portable chip hold is put down. -/
theorem Accounts.stated (accounts : layout.Accounts chip chip.allocations)
    (portable : chip.Portable) : ∀ a ∈ chip.allocations, layout.Stated a := by
  intro a mem
  refine ⟨portable.pinned a mem, ?_, accounts.counted a mem⟩
  intro whole index inside
  have one := portable.single a mem whole index inside
  obtain ⟨core, listed, rfl⟩ := accounts.named a mem whole index (mem_append_left _ inside)
  rw [accounts.shows.coreUnits, coreUnits_id listed] at one
  obtain ⟨only, alone⟩ := length_eq_one_iff.mp one
  refine ⟨core, listed, ?_⟩
  rw [alone, Single.id alone]

theorem Accounts.small (accounts : layout.Accounts chip chip.allocations)
    (portable : chip.Portable) : ∀ a ∈ chip.allocations, a.Small := by
  intro a mem
  have printable := accounts.shows.printable portable
  have known : ∀ resource ∈ a.resources, resource ∈ layout.resources := fun resource inside =>
    accounts.listed.2 resource (mem_flatMap.mpr ⟨a, mem, inside⟩)
  constructor
  · intro index inside
    apply printable.indices
    apply Shows.mem_indices_of_mem_resources
    exact known _ (by simp [Allocation.resources, Allocation.processors, inside])
  · intro id inside
    apply printable.devices (.gpu, id)
    apply Shows.mem_devices_of_mem_resources
    exact known (.gpu id) (by simp [Allocation.resources, inside])
  · intro id inside
    apply printable.devices (.mic, id)
    apply Shows.mem_devices_of_mem_resources
    exact known (.mic id) (by simp [Allocation.resources, inside])
  · have share : a.memory ≤ (layout.tally _).memory := le_sum_of_mem (mem_map_of_mem mem)
    have total := accounts.shows.availableMemory
    have bound := printable.memory
    omega

theorem mem_resources_sorted {resource : Resource} :
    resource ∈ layout.sorted.resources ↔ resource ∈ layout.resources := by
  unfold resources
  rw [mem_append, mem_append, mem_map, mem_map, mem_map, mem_map]
  simp only [mem_devices_sorted]
  rfl

/-- A portable chip has a twin, the one rebuilt from its JSON. -/
theorem Keeps.twins (keeps : layout.Keeps chip) (portable : chip.Portable)
    {validIds : List String} (valid : ∀ a ∈ chip.allocations, a.jobid ∈ validIds) :
    ∃ copy, Chip.ofJson (chip.displayAsJson true) validIds = some copy ∧
      layout.Twins chip copy := by
  have accounts := keeps.accounts
  have shows := accounts.shows
  have stated := accounts.stated portable
  have again : layout.sorted.Recounted chip.allocations
      { layout.sorted.idleChip with
        allocations := chip.allocations.map Allocation.reread }.adjustOpenResources := by
    apply Recounted.adjustOpenResources
    · intro a mem
      exact ⟨(stated a mem).pinned, (stated a mem).single, (stated a mem).counted⟩
    · exact ⟨shows.nodup, fun resource mem => mem_resources_sorted.mpr (shows.known resource mem),
        Nat.le.intro ((Nat.add_comm _ _).trans shows.availableMemory)⟩
  refine ⟨_, shows.ofJson (shows.printable portable) valid (accounts.small portable), accounts,
    ?_, again.alike, ?_⟩
  · exact again.accounts accounts.named accounts.counted
  · exact again.marked.trans portable.marked.symm

end ChipLayout

/-! ## Runs -/

section

variable {F : Type} [Floating F]

/-- In a state that was reached by steady scans, a portable chip that is rebuilt from its JSON is
the same as before, and stays the same as jobs are freed. -/
theorem rebuilt_same (layout : MachineLayout) (events : List Event)
    (steady : Admissible (Machine.step F) (Machine.Steady F) layout.idle events) (chip : Chip)
    (mem : chip ∈ (run (Machine.step F) layout.idle events).chips) (portable : chip.Portable)
    (validIds : List String) (valid : ∀ a ∈ chip.allocations, a.jobid ∈ validIds) :
    ∃ rebuilt, Chip.ofJson (chip.displayAsJson true) validIds = some rebuilt ∧
      ∀ jobids : List String,
        (jobids.foldl Chip.freeTask chip).Same (jobids.foldl Chip.freeTask rebuilt) := by
  have sound := MachineLayout.Sound.run steady
  have kept : ∀ chip ∈ (run (Machine.step F) layout.idle events).chips,
      ∃ chipLayout : ChipLayout, chipLayout.Keeps chip :=
    forall_mem_right (fun chipLayout _ keeps => ⟨chipLayout, keeps⟩) sound.chips
  obtain ⟨chipLayout, keeps⟩ := kept chip mem
  obtain ⟨rebuilt, read, twins⟩ := keeps.twins portable valid
  exact ⟨rebuilt, read, fun jobids => (twins.freeTasks jobids).same⟩

end

/-! ### A chip that is not portable -/

/-- One chip, whose core has two units. -/
def twoUnits : MachineLayout where
  sockets :=
    [[{ cores := [⟨0, [0, 1], rfl⟩]
        devices := []
        memory := 4
        distinct := by decide
        distinctDevices := List.nodup_nil }]]

/-- One task that asks for a whole core. -/
def coreReq : Req :=
  { threadReq 1 with useCores := true }

/-- The job holds both units of the core, but the second one is idle when the chip has been
rebuilt. -/
theorem second_unit_idle_when_rebuilt :
    ¬ ∀ (layout : MachineLayout) (events : List Event),
      ∀ chip ∈ (run (Machine.step ℚ) layout.idle events).chips,
        ∀ validIds : List String, (∀ a ∈ chip.allocations, a.jobid ∈ validIds) →
          ∃ rebuilt, Chip.ofJson (chip.displayAsJson true) validIds = some rebuilt ∧
            ∀ jobids : List String,
              (jobids.foldl Chip.freeTask chip).Same (jobids.foldl Chip.freeTask rebuilt) := by
  intro always
  have known : ∀ chip ∈ (run (Machine.step ℚ) twoUnits.idle [.placeJob "1.server" [coreReq]]).chips,
      ∀ a ∈ chip.allocations, a.jobid ∈ ["1.server"] := by
    decide +kernel
  have differs : ¬ ∀ chip ∈
      (run (Machine.step ℚ) twoUnits.idle [.placeJob "1.server" [coreReq]]).chips,
        ((Chip.ofJson (chip.displayAsJson true) ["1.server"]).all fun rebuilt =>
          decide ((⟨1, true⟩ : Pu) ∈ rebuilt.units ↔ (⟨1, true⟩ : Pu) ∈ chip.units)) = true := by
    decide +kernel
  apply differs
  intro chip mem
  obtain ⟨rebuilt, read, same⟩ := always twoUnits _ chip mem ["1.server"] (known chip mem)
  rw [read]
  exact decide_eq_true ((same []).units 1)

theorem rebuilt_same_fragmented :
    Admissible (Machine.step ℚ) (Machine.Steady ℚ) threeCores.idle fragmented ∧
      ∃ chip ∈ (run (Machine.step ℚ) threeCores.idle fragmented).chips,
        chip.Portable ∧ chip.allocations ≠ [] ∧
          ∃ rebuilt, Chip.ofJson (chip.displayAsJson true) ["2.server"] = some rebuilt ∧
            ∀ jobids : List String,
              (jobids.foldl Chip.freeTask chip).Same (jobids.foldl Chip.freeTask rebuilt) := by
  have steady : Admissible (Machine.step ℚ) (Machine.Steady ℚ) threeCores.idle fragmented := by
    decide +kernel
  have found : ∃ chip ∈ (run (Machine.step ℚ) threeCores.idle fragmented).chips,
      chip.Portable ∧ chip.allocations ≠ [] ∧ ∀ a ∈ chip.allocations, a.jobid ∈ ["2.server"] := by
    decide +kernel
  obtain ⟨chip, mem, portable, used, valid⟩ := found
  exact ⟨steady, chip, mem, portable, used,
    rebuilt_same threeCores fragmented steady chip mem portable ["2.server"] valid⟩

end Torque.Numa
