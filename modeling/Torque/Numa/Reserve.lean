import Torque.Numa.Records
import Torque.Numa.Scan

/-!
# What a task gets of a chip

`Leads` is what holds of every reservation made for a task: the records and the
mark of the chip stay as they are, and a chip that accounts for the allocation
in the making goes on doing so.  It is shown here for each way in which the
processors and the accelerators of a task are found.  The scan for contiguous
threads and the gift of all execution slots need what they look at to be
steady.
-/

namespace Torque.Numa

open Torque.Transition List

/-- What the calls that take units without checking them again rely on. -/
def Look.Steady : Look → Prop
  | .contiguous units wanted => SteadyScan units wanted
  | .all chip _ coresOnly => coresOnly = true ∨ ∀ unit ∈ chip.units, unit.busy = false

instance : DecidablePred Look.Steady
  | .contiguous units wanted => inferInstanceAs (Decidable (SteadyScan units wanted))
  | .all _ _ _ => inferInstanceAs (Decidable (_ ∨ _))

namespace Booking

/-- What a reservation leaves alone. -/
structure Frame (b b' : Booking) : Prop where
  records : b'.chip.allocations = b.chip.allocations
  exclusive : b'.chip.chipExclusive = b.chip.chipExclusive
  jobid : b'.alloc.jobid = b.alloc.jobid
  coresOnly : b'.alloc.coresOnly = b.alloc.coresOnly
  /-- Threads are only counted for a processor that is listed. -/
  threads : b'.alloc.processors = [] → b.alloc.processors = [] ∧ b'.alloc.threads = b.alloc.threads

/-- What is true of every reservation. -/
structure Leads (b b' : Booking) : Prop extends Frame b b' where
  accounts : ∀ (layout : ChipLayout) (base : List Allocation),
    layout.Accounts b.chip (base ++ [b.alloc]) → layout.Accounts b'.chip (base ++ [b'.alloc])

variable {b b' b'' : Booking} (pinned : Bool)

theorem Frame.refl (b : Booking) : Frame b b :=
  ⟨rfl, rfl, rfl, rfl, fun empty => ⟨empty, rfl⟩⟩

theorem Frame.trans (first : Frame b b') (second : Frame b' b'') : Frame b b'' :=
  ⟨second.records.trans first.records, second.exclusive.trans first.exclusive,
    second.jobid.trans first.jobid, second.coresOnly.trans first.coresOnly, fun empty =>
      have before := second.threads empty
      ⟨(first.threads before.1).1, before.2.trans (first.threads before.1).2⟩⟩

theorem Leads.refl (b : Booking) : Leads b b :=
  ⟨Frame.refl b, fun _ _ accounts => accounts⟩

theorem Leads.trans (first : Leads b b') (second : Leads b' b'') : Leads b b'' :=
  ⟨first.toFrame.trans second.toFrame,
    fun layout base accounts => second.accounts layout base (first.accounts layout base accounts)⟩

/-- A loop over slots, each of which leads on from a booking of this kind. -/
theorem foldl_leads {σ : Type} {take : Booking → σ → Booking} (whole : Bool)
    (step : ∀ b slot, b.alloc.coresOnly = whole → Leads b (take b slot)) (slots : List σ)
    (kind : b.alloc.coresOnly = whole) : Leads b (slots.foldl take b) :=
  run_invariant (Leads b) (Leads.refl b)
    (fun b' slot before => before.trans (step b' slot (before.coresOnly.trans kind))) slots

theorem enter_frame {chip : Chip} (records : chip.allocations = b.chip.allocations)
    (exclusive : chip.chipExclusive = b.chip.chipExclusive) (pinned : Bool)
    (index cores threads : Int) : Frame b ⟨chip, b.alloc.enter pinned index cores threads⟩ where
  records := records
  exclusive := exclusive
  jobid := ChipLayout.enter_jobid ..
  coresOnly := ChipLayout.enter_coresOnly ..
  threads empty := absurd empty
    (ChipLayout.processors_enter_ne_nil b.alloc pinned index cores threads)

variable (b : Booking)

theorem takeUnit_frame (index : Int) : Frame b (b.takeUnit pinned index) := by
  unfold takeUnit
  split
  · apply enter_frame
    · rfl
    · rfl
  · exact Frame.refl b

theorem takeCore_leads (position : Nat) (whole : b.alloc.coresOnly = true) :
    Leads b (b.takeCore pinned position) := by
  refine ⟨?_, fun _ _ accounts => accounts.takeCore whole position pinned⟩
  unfold takeCore
  split
  · split
    · apply enter_frame
      · rfl
      · rfl
    · exact Frame.refl b
  · exact Frame.refl b

theorem reserveThread_leads (position : Nat) (single : b.alloc.coresOnly = false) :
    Leads b (b.reserveThread position).2 := by
  refine ⟨?_, fun _ _ accounts => accounts.reserveThread single position⟩
  unfold reserveThread
  split
  · split
    · apply enter_frame
      · rfl
      · rfl
    · exact ⟨rfl, rfl, rfl, rfl, fun empty => ⟨empty, rfl⟩⟩
  · exact Frame.refl b

theorem placeAccelerators_leads (remaining : Allocation) :
    Leads b (b.placeAccelerators remaining).1 :=
  ⟨⟨(ChipLayout.placeAccelerators_records b remaining).1,
      (ChipLayout.placeAccelerators_records b remaining).2.1, rfl, rfl, fun empty => ⟨empty, rfl⟩⟩,
    fun _ _ accounts => accounts.placeAccelerators remaining⟩

/-! ## Single units -/

end Booking

namespace ChipLayout

variable {layout : ChipLayout} {chip : Chip} {t : Tally}

variable (shows : layout.Shows chip t)
include shows

theorem Shows.units :
    chip.units = layout.indices.map fun index => ⟨index, busyUnit t.held index⟩ := by
  unfold Chip.units indices
  rw [shows.cores, flatMap_map, map_flatMap]
  rfl

theorem Shows.idleIndices :
    chip.idleIndices = layout.indices.filter fun index => !busyUnit t.held index := by
  unfold Chip.idleIndices
  rw [shows.units, filter_map, map_map]
  simp [Function.comp_def, Pu.idle]

/-- A free core is named by one of the idle units. -/
theorem Shows.freeIds_sublist :
    ((chip.cores.filter Core.free).map Core.id).Sublist chip.idleIndices := by
  rw [shows.idleIndices, shows.cores]
  unfold indices
  generalize layout.cores = cores
  induction cores with
  | nil => exact List.Sublist.slnil
  | cons core cores ih =>
    rw [flatMap_cons, filter_append, map_cons]
    cases free : (core.core (busyUnit t.held)).free with
    | false =>
      rw [filter_cons_of_neg (by simp [free])]
      exact ih.trans (sublist_append_right _ _)
    | true =>
      have idle := CoreLayout.core_free_iff.mp free
      rw [filter_cons_of_pos free, map_cons, ← singleton_append]
      refine List.Sublist.append ?_ ih
      rw [singleton_sublist, mem_filter]
      exact ⟨core.id_mem, by rw [show (core.core (busyUnit t.held)).id = core.id from rfl,
        idle core.id core.id_mem]; rfl⟩

end ChipLayout

namespace Booking

variable {b : Booking} {picks : List (Bool × Int)}

/-- Units of the chip that nobody holds and that are taken one after the other,
each of them pinned or not. -/
theorem foldl_takeUnit_accounts {layout : ChipLayout} {base : List Allocation}
    (accounts : layout.Accounts b.chip (base ++ [b.alloc])) (single : b.alloc.coresOnly = false)
    (nodup : (picks.map Prod.snd).Nodup)
    (idle : ∀ pick ∈ picks, pick.2 ∈ layout.indices ∧
      Resource.unit pick.2 ∉ (layout.tally (base ++ [b.alloc])).held) :
    layout.Accounts (picks.foldl (fun b pick => b.takeUnit pick.1 pick.2) b).chip
      (base ++ [(picks.foldl (fun b pick => b.takeUnit pick.1 pick.2) b).alloc]) := by
  induction picks generalizing b with
  | nil => exact accounts
  | cons pick picks ih =>
    obtain ⟨fresh, nodup⟩ := nodup_cons.mp nodup
    obtain ⟨mem, unheld⟩ := idle pick mem_cons_self
    obtain ⟨first, held⟩ := accounts.takeUnit single mem unheld pick.1
    apply ih first ((takeUnit_frame pick.1 b pick.2).coresOnly.trans single) nodup
    intro other inside
    obtain ⟨known, free⟩ := idle other (mem_cons_of_mem _ inside)
    refine ⟨known, ?_⟩
    rw [held.mem_iff, mem_cons]
    rintro (same | old)
    · have equal : other.2 = pick.2 := by simpa using same
      exact fresh (equal ▸ mem_map_of_mem inside)
    · exact free old

theorem foldl_takeUnit_frame (picks : List (Bool × Int)) (b : Booking) :
    Frame b (picks.foldl (fun b pick => b.takeUnit pick.1 pick.2) b) :=
  run_invariant (Frame b) (Frame.refl b)
    (fun _ _ before => before.trans (takeUnit_frame ..)) picks

/-- The same for units that are idle on the chip. -/
theorem foldl_takeUnit_leads (single : b.alloc.coresOnly = false)
    (idle : (picks.map Prod.snd).Sublist b.chip.idleIndices) :
    Leads b (picks.foldl (fun b pick => b.takeUnit pick.1 pick.2) b) := by
  constructor
  · exact foldl_takeUnit_frame picks b
  · intro layout base accounts
    rw [accounts.shows.idleIndices] at idle
    apply foldl_takeUnit_accounts accounts single (idle.nodup (layout.distinct.filter _))
    intro pick mem
    have free := mem_filter.mp (idle.subset (mem_map_of_mem mem))
    exact ⟨free.1, by simpa [busyUnit] using free.2⟩

/-! ## The processors of a task -/

section

variable {F : Type} [Floating F] (slotsPerTask toRsv : Int) (placeType : PlaceType)

/-- The index at which the loop expects the next slot to pin after so many. -/
def pinIndexAt (step : F) : Nat → F
  | 0 => Floating.ofInt 0
  | pins + 1 => Floating.add (pinIndexAt step pins) step

/-- How many of the positions from `position` on are met if they are expected one after the
other, beginning with that after `pins`. -/
def hits (expected : Nat → Int) : Nat → Nat → Nat → Nat
  | 0, _, _ => 0
  | left + 1, position, pins =>
    if position = expected pins then hits expected left (position + 1) (pins + 1) + 1
    else hits expected left (position + 1) pins

theorem pinSlots_eq_foldl {σ : Type} (take : Bool → Booking → σ → Booking) (slotsPerTask : Int)
    (step : F) (slots : List σ) (position pins : Nat) (b : Booking) :
    ∃ picks : List (Bool × σ), picks.map Prod.snd = slots ∧
      (picks.countP Prod.fst = if 0 < slotsPerTask then
        hits (fun pins => Floating.round (pinIndexAt step pins)) slots.length position pins else 0) ∧
      pinSlots F (take true) (take false) slotsPerTask step slots position (pinIndexAt step pins) b =
        picks.foldl (fun b pick => take pick.1 b pick.2) b := by
  induction slots generalizing position pins b with
  | nil => exact ⟨[], rfl, by simp [hits], rfl⟩
  | cons slot slots ih =>
    by_cases pin : position = Floating.round (pinIndexAt step pins) ∧ 0 < slotsPerTask
    · obtain ⟨picks, listed, count, result⟩ := ih (position + 1) (pins + 1) (take true b slot)
      refine ⟨(true, slot) :: picks, by rw [map_cons, listed], ?_, ?_⟩
      · rw [countP_cons_of_pos rfl, count, length_cons, hits, if_pos pin.1, if_pos pin.2,
          if_pos pin.2]
      · rw [pinSlots, if_pos pin]
        exact result
    · obtain ⟨picks, listed, count, result⟩ := ih (position + 1) pins (take false b slot)
      refine ⟨(false, slot) :: picks, by rw [map_cons, listed], ?_, ?_⟩
      · rw [countP_cons_of_neg Bool.false_ne_true, count, length_cons, hits]
        split_ifs with some other
        · exact absurd ⟨other, some⟩ pin
        · rfl
        · rfl
      · rw [pinSlots, if_neg pin]
        exact result

/-- Slots that are not where the next one is expected are passed over. -/
theorem legacySlots_eq_foldl (slots : List Int) (position : Nat) (pinIndex : F) (b : Booking) :
    ∃ picks : List (Bool × Int), (picks.map Prod.snd).Sublist slots ∧
      legacySlots F slots position pinIndex b =
        picks.foldl (fun b pick => b.takeUnit pick.1 pick.2) b := by
  induction slots generalizing position pinIndex b with
  | nil => exact ⟨[], List.Sublist.slnil, rfl⟩
  | cons slot slots ih =>
    unfold legacySlots
    split
    · obtain ⟨picks, listed, result⟩ :=
        ih (position + 1) (Floating.add pinIndex (Floating.ofInt 1)) (b.reservePlaceThread slot)
      exact ⟨(true, slot) :: picks, listed.cons_cons slot, result⟩
    · obtain ⟨picks, listed, result⟩ := ih (position + 1) pinIndex b
      exact ⟨picks, listed.cons slot, result⟩

theorem placeTasksExecutionSlots_core (whole : b.alloc.coresOnly = true) :
    Traced.Under Look.Steady (b.placeTasksExecutionSlots F slotsPerTask toRsv .core) (Leads b) := by
  apply Traced.Under.pure
  obtain ⟨picks, -, -, result⟩ := pinSlots_eq_foldl takeCore slotsPerTask
    (slotStep F slotsPerTask toRsv) (b.chip.getContiguousCoreVector (max slotsPerTask toRsv)) 0 0 b
  refine (congrArg (Leads b) result).mpr ?_
  exact foldl_leads true (fun b pick kind => takeCore_leads pick.1 b pick.2 kind) picks whole

theorem placeTasksExecutionSlots_thread (single : b.alloc.coresOnly = false) :
    Traced.Under Look.Steady (b.placeTasksExecutionSlots F slotsPerTask toRsv .thread)
      (Leads b) := by
  have look : Traced.Under Look.Steady
      (Traced.record (.contiguous b.chip.units (max slotsPerTask toRsv)))
      fun _ => SteadyScan b.chip.units (max slotsPerTask toRsv) :=
    Traced.Under.record fun steady => steady
  refine look.bind fun _ steady => Traced.Under.pure ?_
  obtain ⟨picks, listed, -, result⟩ := pinSlots_eq_foldl takeUnit slotsPerTask
    (slotStep F slotsPerTask toRsv) (b.chip.getContiguousThreadVector (max slotsPerTask toRsv))
    0 0 b
  refine (congrArg (Leads b) result).mpr ?_
  apply foldl_takeUnit_leads single
  rw [listed]
  exact Chip.getContiguousThreadVector_sublist steady

theorem placeTaskForLegacyThreads_leads (single : b.alloc.coresOnly = false) :
    Leads b (b.placeTaskForLegacyThreads F slotsPerTask placeType) := by
  unfold placeTaskForLegacyThreads
  split
  · obtain ⟨picks, listed, result⟩ := legacySlots_eq_foldl
      ((b.chip.getContiguousCoreVector slotsPerTask).filterMap fun position =>
        b.chip.cores[position]?.map Core.id) 0 (Floating.ofInt 0 : F) b
    rw [result]
    have named := listed.trans (b.chip.coreVector_ids_sublist slotsPerTask)
    -- that a core is named by one of its units is known from a layout only
    constructor
    · exact foldl_takeUnit_frame picks b
    · intro layout base accounts
      have idle := named.trans accounts.shows.freeIds_sublist
      exact (foldl_takeUnit_leads single idle).accounts layout base accounts
  · obtain ⟨picks, listed, result⟩ := legacySlots_eq_foldl
      (b.chip.getOpenThreadVector slotsPerTask) 0 (Floating.ofInt 0 : F) b
    rw [result]
    exact foldl_takeUnit_leads single
      (listed.trans (b.chip.getOpenThreadVector_sublist slotsPerTask))

theorem placeProcessors_under :
    Traced.Under Look.Steady
      (b.placeProcessors F slotsPerTask toRsv b.alloc.coresOnly placeType) (Leads b) := by
  unfold placeProcessors
  split
  · rename_i whole
    exact placeTasksExecutionSlots_core slotsPerTask toRsv whole
  · rename_i single
    rw [Bool.not_eq_true] at single
    split
    · exact Traced.Under.pure (placeTaskForLegacyThreads_leads slotsPerTask placeType single)
    · exact placeTasksExecutionSlots_thread slotsPerTask toRsv single

end

variable (slots : Int) (positions : List Nat)

/-! ## Spreading, and all execution slots -/

theorem spreadCores_leads {F : Type} [Floating F] (step : F) (rounds : Nat) (i : F)
    (whole : b.alloc.coresOnly = true) : Leads b (spreadCores F step rounds i b) := by
  induction rounds generalizing b i with
  | zero => exact Leads.refl b
  | succ rounds ih =>
    have first := takeCore_leads true b (Floating.round i).toNat whole
    exact first.trans (ih (Floating.add i step) (first.coresOnly.trans whole))

theorem fillCore_leads (position rounds : Nat) (s : Spread)
    (single : s.booking.alloc.coresOnly = false) :
    Leads s.booking (s.fillCore position rounds).booking := by
  induction rounds generalizing s with
  | zero => exact Leads.refl _
  | succ rounds ih =>
    have first := reserveThread_leads s.booking position single
    have rest := ih
      ⟨(s.booking.reserveThread position).2,
        if (s.booking.reserveThread position).1 then s.placed + 1 else s.placed, s.remainder⟩
      (first.coresOnly.trans single)
    exact first.trans rest

theorem fillCores_leads (perCore : Nat) (positions : List Nat) (s : Spread)
    (single : s.booking.alloc.coresOnly = false) :
    Leads s.booking (s.fillCores slots perCore positions).booking := by
  induction positions generalizing s with
  | nil => exact Leads.refl _
  | cons position positions ih =>
    unfold Spread.fillCores
    split
    · have first := fillCore_leads position perCore s single
      exact first.trans (ih _ (first.coresOnly.trans single))
    · exact Leads.refl _

theorem pass_leads (s : Spread) (single : s.booking.alloc.coresOnly = false) :
    Leads s.booking (s.pass slots positions).booking := by
  induction positions generalizing s with
  | nil => exact Leads.refl _
  | cons position positions ih =>
    unfold Spread.pass
    have first := reserveThread_leads s.booking position single
    have rest := fun placed remainder =>
      ih ⟨(s.booking.reserveThread position).2, placed, remainder⟩ (first.coresOnly.trans single)
    split
    · dsimp only
      split
      · exact first.trans (rest _ _)
      · exact first.trans (rest _ _)
    · exact Leads.refl _

theorem passes_leads (rounds : Nat) (s : Spread) (single : s.booking.alloc.coresOnly = false) :
    Leads s.booking (s.passes slots positions rounds).booking := by
  induction rounds generalizing s with
  | zero => exact Leads.refl _
  | succ rounds ih =>
    unfold Spread.passes
    split
    · have first := pass_leads slots positions s single
      exact first.trans (ih _ (first.coresOnly.trans single))
    · exact Leads.refl _

theorem spreadThreads_leads (extra : Bool) (single : b.alloc.coresOnly = false) :
    Leads b (b.spreadThreads slots extra) := by
  have shared := fillCores_leads slots (slots.tdiv b.chip.totalCores).toNat
    (range b.chip.cores.length)
    ⟨b, if extra then -1 else 0, slots.tmod b.chip.totalCores⟩ single
  exact shared.trans (passes_leads _ _ _ _ (shared.coresOnly.trans single))

/-- Everything is taken: free cores, or units that are all idle. -/
theorem reserveAll_leads
    (idle : b.alloc.coresOnly = false → ∀ unit ∈ b.chip.units, unit.busy = false) :
    Leads b b.reserveAll := by
  unfold reserveAll
  split
  · rename_i whole
    exact foldl_leads true (fun b position kind => takeCore_leads true b position kind) _ whole
  · rename_i single
    rw [Bool.not_eq_true] at single
    have all : (b.chip.units.filter Pu.idle) = b.chip.units := by
      rw [filter_eq_self]
      intro unit mem
      simp [Pu.idle, idle single unit mem]
    have listed : (((b.chip.units.map Pu.index).map fun index => (true, index)).map
        Prod.snd).Sublist b.chip.idleIndices := by
      simp [Chip.idleIndices, all, Function.comp_def]
    have taken := foldl_takeUnit_leads single listed
    rw [foldl_map] at taken
    exact taken

end Booking

end Torque.Numa
