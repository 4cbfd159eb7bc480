import Torque.Numa.Ledger
import Torque.Structure.Pointwise

/-!
# Records of a chip

What an allocation holds of a chip is read off the indices it lists: a unit
each, or all units of a core for an allocation of whole cores.  A chip accounts
for a list of allocations if it shows exactly what they hold.  Every reservation
keeps that for the allocation it enters into, and giving an allocation back
takes it off the list.
-/

namespace Torque.Numa

open Torque.Structure Torque.Transition List

namespace ChipLayout

section

variable (layout : ChipLayout)

/-- The units of the core with this name. -/
def coreUnits (name : Int) : List Int :=
  ((layout.cores.find? fun core => core.id = name).map CoreLayout.indices).getD []

/-- The units an entry of an allocation stands for. -/
def named (coresOnly : Bool) (index : Int) : List Int :=
  if coresOnly then layout.coreUnits index else [index]

variable (a : Allocation)

/-- What an allocation holds of the chip. -/
def holds : List Resource :=
  (a.processors.flatMap (layout.named a.coresOnly)).map .unit ++ a.gpuIndices.map .gpu ++
    a.micIndices.map .mic

/-- The cores an allocation counts. -/
def coreCount : Int :=
  if a.coresOnly then a.processors.length else 0

/-- What several allocations have taken from the chip. -/
def tally (records : List Allocation) : Tally where
  held := records.flatMap layout.holds
  cores := (records.map coreCount).sum
  threads := (records.map Allocation.threads).sum
  memory := (records.map Allocation.memory).sum

/-- The units that the processors of an allocation are. -/
def unitsOf : List Int :=
  a.processors.flatMap (layout.named a.coresOnly)

/-- An allocation of whole cores lists cores of the chip. -/
def WellNamed : Prop :=
  a.coresOnly = true → ∀ name ∈ a.processors, ∃ core ∈ layout.cores, core.id = name

end

/-- The chip shows what the allocations hold, each of which counts its units. -/
structure Accounts (layout : ChipLayout) (chip : Chip) (records : List Allocation) : Prop where
  shows : layout.Shows chip (layout.tally records)
  named : ∀ a ∈ records, layout.WellNamed a
  counted : ∀ a ∈ records, a.threads = (layout.unitsOf a).length

variable {layout : ChipLayout} {core : CoreLayout} {a : Allocation} {base records : List Allocation}
  {chip : Chip}

theorem coreUnits_id (mem : core ∈ layout.cores) : layout.coreUnits core.id = core.indices := by
  unfold coreUnits
  cases found : layout.cores.find? fun other => decide (other.id = core.id) with
  | none =>
    have missing := find?_eq_none.mp found core mem
    simp at missing
  | some other =>
    have same : other.id = core.id := by simpa using find?_some found
    have inside := core.id_mem
    rw [← same] at inside
    rw [eq_of_nodup_flatMap layout.distinct (mem_of_find?_eq_some found) mem other.id_mem inside]
    rfl

theorem tally_concat (records : List Allocation) (a : Allocation) :
    layout.tally (records ++ [a]) =
      ⟨(layout.tally records).held ++ layout.holds a, (layout.tally records).cores + coreCount a,
        (layout.tally records).threads + a.threads, (layout.tally records).memory + a.memory⟩ := by
  simp [tally]

/-! ## Bookings -/

/-- An allocation that lists nothing holds nothing. -/
theorem holds_of_blank (layout : ChipLayout) (blank : a.resources = []) :
    a.processors = [] ∧ layout.holds a = [] ∧ coreCount a = 0 := by
  simp only [Allocation.resources, append_eq_nil_iff, map_eq_nil_iff] at blank
  obtain ⟨⟨processors, gpus⟩, mics⟩ := blank
  exact ⟨processors, by simp [holds, processors, gpus, mics], by simp [coreCount, processors]⟩

section

variable {chip' : Chip} (accounts : layout.Accounts chip records)
  (kept : ∀ record ∈ base, record ∈ records)
include accounts kept

/-- Some records have gone, and the chip has changed with them. -/
theorem Accounts.fewer (shows : layout.Shows chip' (layout.tally base)) :
    layout.Accounts chip' base :=
  ⟨shows, fun record mem => accounts.named record (kept record mem),
    fun record mem => accounts.counted record (kept record mem)⟩

/-- The last of the records has changed, and the chip with it. -/
theorem Accounts.concat
    (shows : layout.Shows chip' (layout.tally (base ++ [a]))) (named : layout.WellNamed a)
    (counted : a.threads = (layout.unitsOf a).length) : layout.Accounts chip' (base ++ [a]) := by
  refine ⟨shows, forall_mem_append.mpr ⟨?_, forall_mem_singleton.mpr named⟩,
    forall_mem_append.mpr ⟨?_, forall_mem_singleton.mpr counted⟩⟩
  · exact fun record mem => accounts.named record (kept record mem)
  · exact fun record mem => accounts.counted record (kept record mem)

end

/-- An allocation that came to nothing need not be recorded. -/
theorem Accounts.drop (accounts : layout.Accounts chip (base ++ [a])) (blank : a.resources = [])
    (unused : a.threads = 0) (none : a.memory = 0) : layout.Accounts chip base := by
  obtain ⟨-, held, cores⟩ := holds_of_blank layout blank
  have shows := accounts.shows
  rw [tally_concat, held, cores, unused, none, append_nil, Int.add_zero, Int.add_zero,
    Nat.add_zero] at shows
  exact accounts.fewer (fun _ => mem_append_left _) shows

section

variable (a : Allocation) (pinned : Bool) (index cores threads : Int)

@[simp]
theorem enter_jobid : (a.enter pinned index cores threads).jobid = a.jobid := by
  cases pinned <;> rfl

@[simp]
theorem enter_coresOnly : (a.enter pinned index cores threads).coresOnly = a.coresOnly := by
  cases pinned <;> rfl

@[simp]
theorem enter_threads : (a.enter pinned index cores threads).threads = a.threads + threads := by
  cases pinned <;> rfl

@[simp]
theorem enter_memory : (a.enter pinned index cores threads).memory = a.memory := by
  cases pinned <;> rfl

theorem processors_enter :
    (a.enter pinned index cores threads).processors.Perm (index :: a.processors) := by
  cases pinned with
  | true =>
    simp only [Allocation.processors, Allocation.enter, if_true, append_assoc]
    exact perm_middle
  | false =>
    simp only [Allocation.processors, Allocation.enter, Bool.false_eq_true, if_false,
      ← append_assoc]
    exact perm_append_singleton _ _

theorem processors_enter_ne_nil : (a.enter pinned index cores threads).processors ≠ [] := by
  intro empty
  have perm := processors_enter a pinned index cores threads
  rw [empty] at perm
  exact cons_ne_nil _ _ perm.nil_eq.symm

theorem coreCount_enter :
    coreCount (a.enter pinned index cores threads) =
      coreCount a + if a.coresOnly then 1 else 0 := by
  unfold coreCount
  rw [enter_coresOnly, (processors_enter ..).length_eq]
  split
  · simp
  · rfl

theorem length_unitsOf_enter :
    (layout.unitsOf (a.enter pinned index cores threads)).length =
      (layout.unitsOf a).length + (layout.named a.coresOnly index).length := by
  have units := (processors_enter a pinned index cores threads).flatMap_right
    (layout.named a.coresOnly)
  unfold unitsOf
  rw [enter_coresOnly, units.length_eq, flatMap_cons, length_append, Nat.add_comm]

theorem holds_enter :
    (layout.holds (a.enter pinned index cores threads)).Perm
      ((layout.named a.coresOnly index).map .unit ++ layout.holds a) := by
  have devices : (a.enter pinned index cores threads).gpuIndices = a.gpuIndices ∧
      (a.enter pinned index cores threads).micIndices = a.micIndices := by
    cases pinned <;> exact ⟨rfl, rfl⟩
  have units := ((processors_enter a pinned index cores threads).flatMap_right
    (layout.named a.coresOnly)).map Resource.unit
  rw [flatMap_cons, map_append] at units
  unfold holds
  rw [devices.1, devices.2, enter_coresOnly, ← append_assoc, ← append_assoc]
  exact (units.append_right _).append_right _

end

section

variable {base : List Allocation} {b : Booking}

theorem held_enter (a : Allocation) (pinned : Bool) (index cores threads : Int) :
    (layout.tally (base ++ [a.enter pinned index cores threads])).held.Perm
      ((layout.named a.coresOnly index).map .unit ++ (layout.tally (base ++ [a])).held) := by
  simp only [tally_concat]
  refine ((holds_enter a pinned index cores threads).append_left _).trans ?_
  simp only [← append_assoc]
  exact perm_append_comm.append_right _

/-- One more entry in the allocation, with the chip to match. -/
theorem Accounts.enter {chip' : Chip} (accounts : layout.Accounts chip (base ++ [a]))
    {pinned : Bool} {index cores threads : Int}
    (shows : layout.Shows chip'
      ⟨(layout.named a.coresOnly index).map .unit ++ (layout.tally (base ++ [a])).held,
        (layout.tally (base ++ [a])).cores + if a.coresOnly then 1 else 0,
        (layout.tally (base ++ [a])).threads + threads, (layout.tally (base ++ [a])).memory⟩)
    (name : a.coresOnly = true → ∃ core ∈ layout.cores, core.id = index)
    (amount : threads = (layout.named a.coresOnly index).length) :
    layout.Accounts chip' (base ++ [a.enter pinned index cores threads]) := by
  have last : a ∈ base ++ [a] := mem_concat_self
  apply accounts.concat fun _ => mem_append_left _
  · have next := shows.perm (held_enter a pinned index cores threads).symm
    simp only [tally_concat] at next ⊢
    rw [coreCount_enter, enter_threads, enter_memory, ← Int.add_assoc, ← Int.add_assoc]
    exact next
  · intro whole entry inside
    rw [enter_coresOnly] at whole
    rcases mem_cons.mp ((processors_enter ..).mem_iff.mp inside) with rfl | inside
    · exact name whole
    · exact accounts.named a last whole entry inside
  · rw [enter_threads, length_unitsOf_enter, accounts.counted a last, amount]
    exact (Int.natCast_add _ _).symm

section

variable (accounts : layout.Accounts b.chip (base ++ [b.alloc]))
include accounts

theorem Accounts.takeUnit (single : b.alloc.coresOnly = false) {index : Int}
    (mem : index ∈ layout.indices)
    (fresh : Resource.unit index ∉ (layout.tally (base ++ [b.alloc])).held) (pinned : Bool) :
    layout.Accounts (b.takeUnit pinned index).chip (base ++ [(b.takeUnit pinned index).alloc]) ∧
      (layout.tally (base ++ [(b.takeUnit pinned index).alloc])).held.Perm
        (.unit index :: (layout.tally (base ++ [b.alloc])).held) := by
  have idle : busyUnit (layout.tally (base ++ [b.alloc])).held index = false := by
    simpa [busyUnit] using fresh
  unfold Booking.takeUnit
  rw [accounts.shows.cores, reserveUnit_cores layout.distinct mem idle]
  constructor
  · refine accounts.enter ?_ ?_ ?_
    · have next := accounts.shows.takeUnit mem fresh
      rw [single]
      simpa [ChipLayout.named] using next
    · intro whole
      rw [single] at whole
      contradiction
    · rw [single]
      rfl
  · refine (held_enter b.alloc pinned index 0 1).trans ?_
    rw [single]
    exact List.Perm.refl _

/-- Taking a core: nothing happens unless it is free. -/
theorem Accounts.takeCore (whole : b.alloc.coresOnly = true) (position : Nat) (pinned : Bool) :
    layout.Accounts (b.takeCore pinned position).chip
      (base ++ [(b.takeCore pinned position).alloc]) := by
  unfold Booking.takeCore
  rw [accounts.shows.cores, getElem?_map]
  cases found : layout.cores[position]? with
  | none => exact accounts
  | some core =>
    have mem := mem_of_getElem? found
    simp only [Option.map_some]
    split
    · rename_i free
      have idle := CoreLayout.core_free_iff.mp free
      have rounds : (core.indices.countP fun other =>
          !busyUnit (layout.tally (base ++ [b.alloc])).held other) <
            (core.core (busyUnit (layout.tally (base ++ [b.alloc])).held)).units.length + 1 := by
        simp only [CoreLayout.core, length_map]
        exact Nat.lt_succ_of_le countP_le_length
      rw [CoreLayout.takeUnits_core (Shows.core_nodup mem) rounds, ← accounts.shows.cores]
      refine accounts.enter ?_ ?_ ?_
      · have next := accounts.shows.takeCore found idle
        rw [whole, if_pos rfl, ChipLayout.named, if_pos rfl]
        simpa [CoreLayout.core, coreUnits_id mem] using next
      · intro _
        exact ⟨core, mem, rfl⟩
      · rw [whole, ChipLayout.named, if_pos rfl]
        exact congrArg (fun units => (length units : Int)) (coreUnits_id mem).symm
    · exact accounts

/-- Taking an open unit of a core, if it has one. -/
theorem Accounts.reserveThread (single : b.alloc.coresOnly = false) (position : Nat) :
    layout.Accounts (b.reserveThread position).2.chip
      (base ++ [(b.reserveThread position).2.alloc]) := by
  unfold Booking.reserveThread
  rw [accounts.shows.cores, getElem?_map]
  cases found : layout.cores[position]? with
  | none => exact accounts
  | some core =>
    have mem := mem_of_getElem? found
    simp only [Option.map_some]
    cases search : core.indices.find? fun other =>
        !busyUnit (layout.tally (base ++ [b.alloc])).held other with
    | none =>
      rw [CoreLayout.getOpenProcessingUnit_core_of_full search]
      simp only
      rw [set_core layout.distinct found (fun _ _ => rfl), ← accounts.shows.cores]
      exact accounts
    | some index =>
      have inside := mem_of_find?_eq_some search
      have idle : busyUnit (layout.tally (base ++ [b.alloc])).held index = false := by
        simpa using find?_some search
      rw [CoreLayout.getOpenProcessingUnit_core (Shows.core_nodup mem) search]
      simp only
      rw [set_core layout.distinct found]
      · have known := Shows.mem_indices found inside
        have taken := (accounts.takeUnit single known (by simpa [busyUnit] using idle) true).1
        rw [Booking.takeUnit, accounts.shows.cores,
          reserveUnit_cores layout.distinct known idle] at taken
        exact taken
      · intro other outside
        exact Function.update_of_ne (ne_of_mem_of_not_mem inside outside).symm ..

end

/-- The records, the mark and the cores of a chip are those of another. -/
abbrev SameRecords (chip chip' : Chip) : Prop :=
  chip'.allocations = chip.allocations ∧ chip'.chipExclusive = chip.chipExclusive ∧
    chip'.cores = chip.cores

theorem reserveAccelerator_records (chip : Chip) (type : DeviceType) :
    SameRecords chip (chip.reserveAccelerator type).2 := by
  unfold Chip.reserveAccelerator
  split
  · exact ⟨rfl, rfl, rfl⟩
  · exact ⟨rfl, rfl, rfl⟩

theorem takeAccelerators_records (type : DeviceType) (wanted : Nat) (chip : Chip) :
    SameRecords chip (chip.takeAccelerators type wanted).2 := by
  induction wanted generalizing chip with
  | zero => exact ⟨rfl, rfl, rfl⟩
  | succ wanted ih =>
    have one := reserveAccelerator_records chip type
    unfold Chip.takeAccelerators
    generalize chip.reserveAccelerator type = reserved at one ⊢
    obtain ⟨index | index, chip'⟩ := reserved
    · exact one
    · exact ⟨(ih chip').1.trans one.1, (ih chip').2.1.trans one.2.1,
        (ih chip').2.2.trans one.2.2⟩

/-- Accelerators are taken beside the records and the cores. -/
theorem placeAccelerators_records (b : Booking) (remaining : Allocation) :
    SameRecords b.chip (b.placeAccelerators remaining).1.chip := by
  have gpus := takeAccelerators_records .gpu remaining.gpus.toNat b.chip
  have mics := takeAccelerators_records .mic remaining.mics.toNat
    (b.chip.takeAccelerators .gpu remaining.gpus.toNat).2
  exact ⟨mics.1.trans gpus.1, mics.2.1.trans gpus.2.1, mics.2.2.trans gpus.2.2⟩

/-- Accelerators are only taken if nobody holds them. -/
theorem Accounts.placeAccelerators (accounts : layout.Accounts b.chip (base ++ [b.alloc]))
    (remaining : Allocation) :
    layout.Accounts (b.placeAccelerators remaining).1.chip
      (base ++ [(b.placeAccelerators remaining).1.alloc]) := by
  have gpus := accounts.shows.takeAccelerators .gpu remaining.gpus.toNat
  have mics := gpus.takeAccelerators .mic remaining.mics.toNat
  have last : b.alloc ∈ base ++ [b.alloc] := mem_concat_self
  refine accounts.concat (fun _ => mem_append_left _) ?_ (accounts.named b.alloc last)
    (accounts.counted b.alloc last)
  · simp only [tally_concat] at mics ⊢
    apply mics.perm
    rw [perm_iff_count]
    intro resource
    have gpu : (fun id => deviceResource (.gpu, id)) = Resource.gpu := rfl
    have mic : (fun id => deviceResource (.mic, id)) = Resource.mic := rfl
    simp only [holds, Booking.placeAccelerators, Allocation.processors, map_append,
      count_append, gpu, mic]
    omega

/-- Two allocations of one kind may be made one. -/
theorem Accounts.add {task : Allocation} (kind : task.coresOnly = a.coresOnly)
    (accounts : layout.Accounts chip (base ++ [a] ++ [task])) :
    layout.Accounts chip (base ++ [a.add task]) := by
  have processors : (a.add task).processors.Perm (a.processors ++ task.processors) := by
    rw [perm_iff_count]
    intro index
    simp only [Allocation.processors, Allocation.add, count_append]
    omega
  have cores : coreCount (a.add task) = coreCount a + coreCount task := by
    unfold coreCount
    rw [processors.length_eq, kind, show (a.add task).coresOnly = a.coresOnly from rfl]
    cases a.coresOnly <;> simp
  apply accounts.concat fun _ old => mem_append_left _ (mem_append_left _ old)
  · have shows := accounts.shows
    rw [tally_concat, tally_concat] at shows
    rw [tally_concat, cores, show (a.add task).threads = a.threads + task.threads from rfl,
      show (a.add task).memory = a.memory + task.memory from rfl, ← Int.add_assoc, ← Int.add_assoc,
      ← Nat.add_assoc]
    apply shows.perm
    rw [append_assoc]
    apply List.Perm.append_left
    have units := (processors.flatMap_right (layout.named a.coresOnly)).map Resource.unit
    rw [perm_iff_count] at units ⊢
    intro resource
    have count := units resource
    simp only [holds, kind, Allocation.add, flatMap_append, map_append, count_append] at count ⊢
    omega
  · intro whole entry inside
    rcases mem_append.mp (processors.mem_iff.mp inside) with mine | its
    · exact accounts.named a (by simp) whole entry mine
    · exact accounts.named task (by simp) (kind.trans whole) entry its
  · have mine := accounts.counted a (by simp)
    have its := accounts.counted task (by simp)
    have units := (processors.flatMap_right (layout.named a.coresOnly)).length_eq
    rw [flatMap_append, length_append] at units
    unfold unitsOf at mine its ⊢
    rw [kind] at its
    rw [show (a.add task).threads = a.threads + task.threads from rfl,
      show (a.add task).coresOnly = a.coresOnly from rfl, units, mine, its]
    exact (Int.natCast_add _ _).symm

end

variable {chip : Chip} {cores : Int} {held : List Resource} {memory : Nat} {threads : Int}

/-! ## Giving back -/

/-- The processors of an allocation are given back one after the other. -/
theorem Shows.freeProcessors (coresOnly : Bool) {processors : List Int}
    (known : coresOnly = true → ∀ name ∈ processors, ∃ core ∈ layout.cores, core.id = name)
    (shows : layout.Shows chip
      ⟨(processors.flatMap (layout.named coresOnly)).map .unit ++ held,
        cores + if coresOnly then (processors.length : Int) else 0, threads, memory⟩) :
    layout.Shows (processors.foldl (Chip.freeCpuIndex coresOnly) chip)
      ⟨held, cores, threads, memory⟩ := by
  induction processors generalizing chip with
  | nil => simpa using shows
  | cons index processors ih =>
    apply ih
    · intro whole name mem
      exact known whole name (mem_cons_of_mem _ mem)
    · cases coresOnly with
      | false => exact Shows.freeUnit (by simpa [named] using shows)
      | true =>
        obtain ⟨core, mem, rfl⟩ := known rfl index mem_cons_self
        apply Shows.freeCore mem
        simp only [named, if_true, flatMap_cons, map_append, coreUnits_id mem,
          append_assoc, length_cons] at shows ⊢
        convert shows using 2
        omega

/-- Devices are given back one after the other. -/
theorem Shows.freeDevices (type : DeviceType) {ids : List Int}
    (shows : layout.Shows chip
      ⟨(ids.map fun id => deviceResource (type, id)) ++ held, cores, threads, memory⟩) :
    layout.Shows (ids.foldl (Chip.freeAccelerator type) chip) ⟨held, cores, threads, memory⟩ := by
  induction ids generalizing chip with
  | nil => exact shows
  | cons id ids ih =>
    have freed := Shows.freeDevice shows
    exact ih freed

/-- `uncount_allocation` gives back exactly what the allocation holds. -/
theorem Shows.uncountAllocation {t : Tally} (named : layout.WellNamed a)
    (shows : layout.Shows chip ⟨layout.holds a ++ t.held, t.cores + coreCount a,
      t.threads + a.threads, t.memory + a.memory⟩) :
    layout.Shows (chip.uncountAllocation a) t := by
  have counted : layout.Shows
      { chip with
        availableThreads := chip.availableThreads + a.threads
        availableMemory := chip.availableMemory + a.memory }
      ⟨layout.holds a ++ t.held, t.cores + coreCount a, t.threads, t.memory⟩ :=
    { shows with
      availableThreads := by
        have count := shows.availableThreads
        simp only at count ⊢
        omega
      availableMemory := by
        have sum := shows.availableMemory
        simp only at sum ⊢
        omega }
  apply Shows.freeDevices .mic
  apply Shows.freeDevices .gpu
  apply Shows.freeProcessors a.coresOnly named
  have listed := counted
  simp only [holds, coreCount, append_assoc] at listed
  exact listed

theorem uncountAllocation_chipExclusive (chip : Chip) (a : Allocation) :
    (chip.uncountAllocation a).chipExclusive = chip.chipExclusive := by
  let Same (chip' : Chip) := chip'.chipExclusive = chip.chipExclusive
  refine run_invariant Same (run_invariant Same (run_invariant Same (by rfl) ?_ _) ?_ _) ?_ _
  · cases a.coresOnly <;> exact fun _ _ same => same
  · exact fun _ _ same => same
  · exact fun _ _ same => same

theorem Accounts.removeLastAllocation (accounts : layout.Accounts chip chip.allocations)
    (jobid : String) :
    layout.Accounts (chip.removeLastAllocation jobid)
      (chip.removeLastAllocation jobid).allocations := by
  unfold Chip.removeLastAllocation
  split
  · rename_i a last
    split
    · obtain ⟨records, listed⟩ := getLast?_eq_some_iff.mp last
      have shows := accounts.shows
      rw [listed, tally_concat] at shows
      have given := (shows.perm perm_append_comm).uncountAllocation
        (accounts.named a (mem_of_getLast? last))
      apply accounts.fewer (dropLast_subset _)
      simp only [listed, dropLast_concat]
      exact given.relabel _ _
    · exact accounts
  · exact accounts

/-- The order of the records does not matter. -/
theorem Shows.tally_perm {others : List Allocation}
    (shows : layout.Shows chip (layout.tally records)) (same : records.Perm others) :
    layout.Shows chip (layout.tally others) := by
  have next := shows.perm (same.flatMap_right layout.holds)
  simp only [tally] at next ⊢
  rw [(same.map coreCount).sum_eq, (same.map Allocation.threads).sum_eq,
    (same.map Allocation.memory).sum_eq] at next
  exact next

/-- Several allocations are given back one after the other. -/
theorem Shows.uncountAllocations {gone left : List Allocation}
    (named : ∀ a ∈ gone, layout.WellNamed a)
    (shows : layout.Shows chip (layout.tally (gone ++ left))) :
    layout.Shows (gone.foldl Chip.uncountAllocation chip) (layout.tally left) := by
  induction gone generalizing chip with
  | nil => exact shows
  | cons a gone ih =>
    apply ih (forall_mem_cons.mp named).2
    apply Shows.uncountAllocation (named a mem_cons_self)
    have behind := shows.tally_perm (perm_append_singleton a (gone ++ left)).symm
    rw [tally_concat] at behind
    exact behind.perm perm_append_comm

theorem Accounts.freeTask (accounts : layout.Accounts chip chip.allocations) (jobid : String) :
    layout.Accounts (chip.freeTask jobid) (chip.freeTask jobid).allocations := by
  apply accounts.fewer fun _ => mem_of_mem_filter
  apply Shows.relabel
  apply Shows.uncountAllocations fun a mem => accounts.named a (mem_of_mem_filter mem)
  apply accounts.shows.tally_perm
  have split := filter_append_perm (fun a => decide (a.jobid = jobid)) chip.allocations
  simp only [← decide_not] at split
  exact split.symm

end ChipLayout

end Torque.Numa
