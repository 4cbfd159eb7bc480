import Torque.Numa.Layout

/-!
# A chip and what is held of it

`Shows` says that a chip is in the state in which exactly the listed units and
devices are held: every flag and every counter follows from the layout and a
`Tally` of what has been taken.  The operations on a chip are read as adding to
the tally or removing from it.

`Sound` is the case in which the tally is that of the records on the chip.  Two
sound chips of one layout with the same records therefore agree in all flags and
counters.
-/

namespace Torque.Numa

open Function List

/-- A device as something that can be held. -/
def deviceResource : DeviceName → Resource
  | (.gpu, id) => .gpu id
  | (.mic, id) => .mic id

theorem deviceResource_injective {name other : DeviceName}
    (same : deviceResource name = deviceResource other) : name = other := by
  obtain ⟨type, id⟩ := name
  obtain ⟨type', id'⟩ := other
  cases type <;> cases type' <;> simp_all [deviceResource]

theorem deviceResource_ne_unit (name : DeviceName) (index : Int) :
    deviceResource name ≠ .unit index := by
  obtain ⟨type, id⟩ := name
  cases type <;> simp [deviceResource]

/-- The part of a chip that never changes. -/
structure ChipLayout where
  cores : List CoreLayout
  devices : List DeviceName
  memory : Nat
  distinct : (cores.flatMap CoreLayout.indices).Nodup
  distinctDevices : devices.Nodup

/-- What has been taken from a chip. -/
structure Tally where
  held : List Resource
  cores : Int
  threads : Int
  memory : Nat

/-- The unit is held. -/
def busyUnit (held : List Resource) (index : Int) : Bool :=
  decide (Resource.unit index ∈ held)

/-- The device is held. -/
def busyDevice (held : List Resource) (name : DeviceName) : Bool :=
  decide (deviceResource name ∈ held)

/-- The counter of the devices of a type that are not held. -/
def Chip.availableDevices (chip : Chip) : DeviceType → Int
  | .gpu => chip.availableGpus
  | .mic => chip.availableMics

theorem Chip.availableDevices_withDevices (chip : Chip) (devices : List Device)
    (type other : DeviceType) (change : Int) :
    (chip.withDevices devices type change).availableDevices other =
      chip.availableDevices other + if other = type then change else 0 := by
  cases type <;> cases other <;> simp [availableDevices, withDevices]

namespace ChipLayout

/-- The units of all cores. -/
def indices (layout : ChipLayout) : List Int :=
  layout.cores.flatMap CoreLayout.indices

/-- All that can be held of the chip. -/
def resources (layout : ChipLayout) : List Resource :=
  layout.indices.map .unit ++ layout.devices.map deviceResource

/-- The number of devices of a type that are not held. -/
def idle (layout : ChipLayout) (type : DeviceType) (held : List Resource) : Nat :=
  (layout.devices.filter fun name => name.1 = type).countP fun name => !busyDevice held name

/-- The chip is as it has to be when the tally has been taken from it. -/
structure Shows (layout : ChipLayout) (chip : Chip) (t : Tally) : Prop where
  cores : chip.cores = layout.cores.map fun core => core.core (busyUnit t.held)
  devices : chip.devices = layout.devices.map (deviceOf (busyDevice t.held))
  totalCores : chip.totalCores = layout.cores.length
  totalThreads : chip.totalThreads = layout.indices.length
  memory : chip.memory = layout.memory
  availableCores : chip.availableCores = layout.cores.length - t.cores
  availableThreads : chip.availableThreads = layout.indices.length - t.threads
  availableMemory : chip.availableMemory + t.memory = layout.memory
  availableDevices : ∀ type, chip.availableDevices type = layout.idle type t.held
  nodup : t.held.Nodup
  known : ∀ resource ∈ t.held, resource ∈ layout.resources

end ChipLayout

/-! ## Flags of the held units and devices -/

section

variable {held held' : List Resource} {index : Int} {name : DeviceName} {type : DeviceType}
  {layout : ChipLayout}

theorem busyUnit_nil : busyUnit [] = fun _ => false := by
  funext index
  simp [busyUnit]

theorem busyDevice_nil : busyDevice [] = fun _ => false := by
  funext name
  simp [busyDevice]

theorem busyUnit_perm (same : held.Perm held') : busyUnit held = busyUnit held' := by
  funext index
  simp only [busyUnit, same.mem_iff]

theorem busyDevice_perm (same : held.Perm held') : busyDevice held = busyDevice held' := by
  funext name
  simp only [busyDevice, same.mem_iff]

theorem busyUnit_cons_unit :
    busyUnit (.unit index :: held) = update (busyUnit held) index true := by
  funext other
  by_cases same : other = index
  · subst same
    simp [busyUnit]
  · simp [busyUnit, same]

theorem busyUnit_of_cons_unit (fresh : Resource.unit index ∉ held) :
    busyUnit held = update (busyUnit (.unit index :: held)) index false := by
  rw [busyUnit_cons_unit, update_idem]
  have idle : busyUnit held index = false := by simpa [busyUnit] using fresh
  rw [← idle, update_eq_self]

theorem busyUnit_cons_device : busyUnit (deviceResource name :: held) = busyUnit held := by
  funext index
  have ne := (deviceResource_ne_unit name index).symm
  simp [busyUnit, ne]

theorem busyDevice_cons_unit : busyDevice (.unit index :: held) = busyDevice held := by
  funext name
  simp [busyDevice, deviceResource_ne_unit name index]

theorem busyDevice_cons_device :
    busyDevice (deviceResource name :: held) = update (busyDevice held) name true := by
  funext other
  by_cases same : other = name
  · subst same
    simp [busyDevice]
  · have ne : deviceResource other ≠ deviceResource name :=
      fun equal => same (deviceResource_injective equal)
    simp [busyDevice, same, ne]

theorem busyDevice_of_cons_device (fresh : deviceResource name ∉ held) :
    busyDevice held = update (busyDevice (deviceResource name :: held)) name false := by
  rw [busyDevice_cons_device, update_idem]
  have idle : busyDevice held name = false := by simpa [busyDevice] using fresh
  rw [← idle, update_eq_self]

variable (indices : List Int)

theorem busyUnit_append_units :
    busyUnit (indices.map .unit ++ held) = fun index =>
      busyUnit held index || decide (index ∈ indices) := by
  funext index
  by_cases mem : index ∈ indices
  · simp [busyUnit, mem]
  · simp [busyUnit, mem]

theorem busyDevice_append_units : busyDevice (indices.map .unit ++ held) = busyDevice held := by
  induction indices with
  | nil => rfl
  | cons index indices ih => rw [map_cons, cons_append, busyDevice_cons_unit, ih]

theorem idle_congr (same : busyDevice held = busyDevice held') :
    layout.idle type held = layout.idle type held' := by
  rw [ChipLayout.idle, same, ChipLayout.idle]

theorem idle_cons_device (mem : name ∈ layout.devices) (fresh : deviceResource name ∉ held)
    (type : DeviceType) :
    layout.idle type held =
      layout.idle type (deviceResource name :: held) + if type = name.1 then 1 else 0 := by
  rw [ChipLayout.idle, ChipLayout.idle, busyDevice_cons_device]
  split
  · rename_i same
    apply CoreLayout.countP_update_true (layout.distinctDevices.filter _)
    · simpa [same] using mem
    · simpa [busyDevice] using fresh
  · rename_i other
    apply countP_congr
    intro each inside
    have unlike : each ≠ name := by
      rintro rfl
      exact Ne.symm other (by simpa using (mem_filter.mp inside).2)
    rw [update_of_ne unlike]

end

/-! ## Taking -/

namespace ChipLayout.Shows

variable {layout : ChipLayout} {chip : Chip} {t : Tally} {held : List Resource}
  {cores threads index : Int} {memory position : Nat} {core : CoreLayout} {name : DeviceName}

/-- The order in which things were taken does not matter. -/
theorem perm (shows : layout.Shows chip t) (same : t.held.Perm held) :
    layout.Shows chip { t with held := held } where
  __ := shows
  cores := by rw [shows.cores, busyUnit_perm same]
  devices := by rw [shows.devices, busyDevice_perm same]
  availableDevices type := by rw [shows.availableDevices, idle_congr (busyDevice_perm same)]
  nodup := same.nodup shows.nodup
  known resource mem := shows.known resource (same.mem_iff.mpr mem)

/-- The records of a chip and its mark play no part. -/
theorem relabel (shows : layout.Shows chip t) (allocations : List Allocation) (exclusive : Bool) :
    layout.Shows { chip with allocations := allocations, chipExclusive := exclusive } t where
  __ := shows

theorem takeMemory (shows : layout.Shows chip t) {amount : Nat}
    (enough : amount ≤ chip.availableMemory) :
    layout.Shows { chip with availableMemory := chip.availableMemory - amount }
      { t with memory := t.memory + amount } where
  __ := shows
  availableMemory := by
    have sum := shows.availableMemory
    simp only
    omega

theorem unit_mem_resources (mem : index ∈ layout.indices) :
    Resource.unit index ∈ layout.resources :=
  mem_append_left _ (mem_map_of_mem mem)

theorem takeUnit (shows : layout.Shows chip t) (mem : index ∈ layout.indices)
    (fresh : Resource.unit index ∉ t.held) :
    layout.Shows
      { chip with
        cores := layout.cores.map fun core => core.core (update (busyUnit t.held) index true)
        availableThreads := chip.availableThreads - 1 }
      { t with held := .unit index :: t.held, threads := t.threads + 1 } where
  __ := shows
  cores := by rw [busyUnit_cons_unit]
  devices := by rw [shows.devices, busyDevice_cons_unit]
  availableThreads := by
    have count := shows.availableThreads
    simp only
    omega
  availableDevices type := by
    rw [idle_congr busyDevice_cons_unit]
    exact shows.availableDevices type
  nodup := nodup_cons.mpr ⟨fresh, shows.nodup⟩
  known := forall_mem_cons.mpr ⟨unit_mem_resources mem, shows.known⟩

theorem mem_indices (found : layout.cores[position]? = some core) (mem : index ∈ core.indices) :
    index ∈ layout.indices :=
  mem_flatMap.mpr ⟨core, mem_of_getElem? found, mem⟩

theorem core_nodup (mem : core ∈ layout.cores) : core.indices.Nodup :=
  (nodup_flatMap.mp layout.distinct).1 core mem

section

variable (shows : layout.Shows chip t)
include shows

theorem takeCore (found : layout.cores[position]? = some core)
    (free : ∀ index ∈ core.indices, busyUnit t.held index = false) :
    layout.Shows
      { chip with
        cores := chip.cores.set position (core.core fun _ => true)
        availableCores := chip.availableCores - 1
        availableThreads := chip.availableThreads - core.indices.length }
      { t with
        held := core.indices.map .unit ++ t.held
        cores := t.cores + 1
        threads := t.threads + core.indices.length } where
  __ := shows
  cores := by
    have full : core.core (fun _ => true) =
        core.core fun index => busyUnit t.held index || decide (index ∈ core.indices) := by
      apply CoreLayout.core_congr
      intro index mem
      simp [mem]
    rw [shows.cores, busyUnit_append_units, full]
    apply set_core layout.distinct found
    intro index outside
    simp [outside]
  devices := by rw [shows.devices, busyDevice_append_units]
  availableCores := by
    have count := shows.availableCores
    simp only
    omega
  availableThreads := by
    have count := shows.availableThreads
    simp only
    omega
  availableDevices type := by
    rw [idle_congr (busyDevice_append_units _)]
    exact shows.availableDevices type
  nodup := by
    have units : (core.indices.map Resource.unit).Nodup := by
      apply List.Nodup.map _ (core_nodup (mem_of_getElem? found))
      intro index other same
      simpa using same
    refine nodup_append.mpr ⟨units, shows.nodup, ?_⟩
    rintro resource new other old rfl
    obtain ⟨index, mem, rfl⟩ := mem_map.mp new
    have idle := free index mem
    simp [busyUnit, old] at idle
  known := by
    intro resource inside
    rcases mem_append.mp inside with new | old
    · obtain ⟨index, mem, rfl⟩ := mem_map.mp new
      exact unit_mem_resources (mem_indices found mem)
    · exact shows.known resource old

theorem takeDevice (mem : name ∈ layout.devices) (fresh : deviceResource name ∉ t.held) :
    layout.Shows
      (chip.withDevices (layout.devices.map (deviceOf (update (busyDevice t.held) name true)))
        name.1 (-1))
      { t with held := deviceResource name :: t.held } where
  __ := shows
  cores := by rw [busyUnit_cons_device]; exact shows.cores
  devices := by rw [busyDevice_cons_device]; rfl
  availableDevices := by
    intro type
    have count := idle_cons_device mem fresh type
    rw [Chip.availableDevices_withDevices, shows.availableDevices]
    grind
  nodup := nodup_cons.mpr ⟨fresh, shows.nodup⟩
  known := forall_mem_cons.mpr ⟨mem_append_right _ (mem_map_of_mem mem), shows.known⟩

variable (type : DeviceType)

theorem reserveAccelerator :
    chip.reserveAccelerator type = (none, chip) ∨
      ∃ id chip', chip.reserveAccelerator type = (some id, chip') ∧
        layout.Shows chip' { t with held := deviceResource (type, id) :: t.held } := by
  unfold Chip.reserveAccelerator
  rw [shows.devices, takeDevice_devices layout.distinctDevices]
  cases found : layout.devices.find? fun name =>
      decide (name.1 = type) && !busyDevice t.held name with
  | none => exact Or.inl rfl
  | some name =>
    obtain ⟨rfl, idle⟩ : name.1 = type ∧ busyDevice t.held name = false := by
      simpa using find?_some found
    have fresh : deviceResource name ∉ t.held := by simpa [busyDevice] using idle
    exact Or.inr ⟨name.2, _, rfl, shows.takeDevice (mem_of_find?_eq_some found) fresh⟩

theorem takeAccelerators (wanted : Nat) :
    layout.Shows (chip.takeAccelerators type wanted).2
      { t with
        held := ((chip.takeAccelerators type wanted).1.map fun id => deviceResource (type, id)) ++
          t.held } := by
  induction wanted generalizing chip t with
  | zero => exact shows
  | succ wanted ih =>
    rcases shows.reserveAccelerator type with stuck | ⟨id, chip', reserved, next⟩
    · simp only [Chip.takeAccelerators, stuck, map_nil, nil_append]
      exact shows
    · simp only [Chip.takeAccelerators, reserved, map_cons, cons_append]
      exact (ih next).perm perm_middle

end

/-! ### Giving back -/

theorem mem_indices_of_mem_resources (known : Resource.unit index ∈ layout.resources) :
    index ∈ layout.indices := by
  rcases mem_append.mp known with unit | device
  · obtain ⟨other, mem, same⟩ := mem_map.mp unit
    cases same
    exact mem
  · obtain ⟨name, _, same⟩ := mem_map.mp device
    exact absurd same (deviceResource_ne_unit name index)

theorem mem_devices_of_mem_resources
    (known : deviceResource name ∈ layout.resources) : name ∈ layout.devices := by
  rcases mem_append.mp known with unit | device
  · obtain ⟨index, _, same⟩ := mem_map.mp unit
    exact absurd same.symm (deviceResource_ne_unit name index)
  · obtain ⟨other, mem, same⟩ := mem_map.mp device
    rw [← deviceResource_injective same]
    exact mem

theorem freeUnit (shows : layout.Shows chip ⟨.unit index :: held, cores, threads, memory⟩) :
    layout.Shows (chip.freeCpuIndex false index) ⟨held, cores, threads, memory⟩ where
  __ := shows
  cores := by
    obtain ⟨fresh, _⟩ := nodup_cons.mp shows.nodup
    have mem := mem_indices_of_mem_resources (shows.known _ mem_cons_self)
    have taken : busyUnit (.unit index :: held) index = true := by simp [busyUnit]
    rw [busyUnit_of_cons_unit fresh, ← freeUnitIndex_cores layout.distinct mem taken, ← shows.cores]
    rfl
  devices := shows.devices.trans (by rw [busyDevice_cons_unit])
  availableDevices type := by
    rw [← idle_congr busyDevice_cons_unit]
    exact shows.availableDevices type
  nodup := (nodup_cons.mp shows.nodup).2
  known resource mem := shows.known resource (mem_cons_of_mem _ mem)

theorem without_append_units (apart : ∀ index ∈ core.indices, Resource.unit index ∉ held) :
    without (busyUnit (core.indices.map .unit ++ held)) core.indices = busyUnit held := by
  rw [busyUnit_append_units]
  funext index
  by_cases mem : index ∈ core.indices
  · have idle := apart index mem
    simp [without, mem, busyUnit, idle]
  · simp [without, mem]

theorem freeCore (mem : core ∈ layout.cores) (shows : layout.Shows chip
      ⟨core.indices.map .unit ++ held, cores + 1, threads, memory⟩) :
    layout.Shows (chip.freeCpuIndex true core.id) ⟨held, cores, threads, memory⟩ := by
  have apart : ∀ index ∈ core.indices, Resource.unit index ∉ held := by
    intro index inside old
    exact (nodup_append.mp shows.nodup).2.2 _ (mem_map_of_mem inside) _ old rfl
  have taken : ∀ index ∈ core.indices,
      busyUnit (core.indices.map .unit ++ held) index = true := by
    intro index inside
    simp [busyUnit, inside]
  have freed := freeCoreIndex_cores layout.distinct mem taken
  rw [without_append_units apart, ← shows.cores] at freed
  exact
    { shows with
      cores := by simp only [Chip.freeCpuIndex, freed, if_true]
      devices := shows.devices.trans (by rw [busyDevice_append_units])
      availableCores := by
        have count := shows.availableCores
        simp only [Chip.freeCpuIndex, freed, if_true] at count ⊢
        omega
      availableDevices := fun type =>
        (shows.availableDevices type).trans (by rw [idle_congr (busyDevice_append_units _)])
      nodup := (nodup_append.mp shows.nodup).2.1
      known := fun resource inside => shows.known resource (mem_append_right _ inside) }

theorem freeDevice
    (shows : layout.Shows chip ⟨deviceResource name :: held, cores, threads, memory⟩) :
    layout.Shows (chip.freeAccelerator name.1 name.2) ⟨held, cores, threads, memory⟩ := by
  obtain ⟨fresh, nodup⟩ := nodup_cons.mp shows.nodup
  have mem := mem_devices_of_mem_resources (shows.known _ mem_cons_self)
  have one := countP_free_devices (busyDevice (deviceResource name :: held))
    layout.distinctDevices mem
  rw [← shows.devices] at one
  exact
    { shows with
      cores := shows.cores.trans (by rw [busyUnit_cons_device])
      devices := by
        rw [busyDevice_of_cons_device fresh, ← map_free_devices, ← shows.devices]
        rfl
      availableDevices := by
        intro type
        have count := idle_cons_device mem fresh type
        rw [Chip.freeAccelerator, Chip.availableDevices_withDevices, shows.availableDevices, one]
        grind
      nodup := nodup
      known := (forall_mem_cons.mp shows.known).2 }

end ChipLayout.Shows

end Torque.Numa
