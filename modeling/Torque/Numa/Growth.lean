import Torque.Numa.Reserve

/-!
# What placing does to the chips

A call of `place_job` only ever adds records of its own job, and a chip that
accounts for its records still does so afterwards.  `Extends` states this for a
chip, `Grows` for several chips together with an allocation that is filled from
them: what is entered into the allocation has been recorded on the chips.

A chip that is given to a job as a whole is marked as exclusive.  If that is done
to a chip that holds records of other jobs, the mark outlives the job; where the
mark matters, `restored` stands for the assumption that this does not happen.
-/

namespace Torque.Numa

open Torque.Structure List

/-- A chip is given as a whole to a job only if it is exclusive already or holds
no other job. -/
def Look.Restorable : Look → Prop
  | .contiguous _ _ => True
  | .all chip jobid _ => chip.chipExclusive = true ∨ ∀ a ∈ chip.allocations, a.jobid = jobid

instance : DecidablePred Look.Restorable
  | .contiguous _ _ => inferInstanceAs (Decidable True)
  | .all _ _ _ => inferInstanceAs (Decidable (_ ∨ _))

/-- What a call relies on. -/
def Look.Fair (restored : Prop) (look : Look) : Prop :=
  look.Steady ∧ (restored → look.Restorable)

/-- What a call of `place_job` for a job does to a chip. -/
structure Chip.Extends (restored : Prop) (jobid : String) (chip chip' : Chip) : Prop where
  records : ∃ added, chip'.allocations = chip.allocations ++ added ∧ ∀ a ∈ added, a.jobid = jobid
  accounts : ∀ layout : ChipLayout,
    layout.Accounts chip chip.allocations → layout.Accounts chip' chip'.allocations
  marked : (chip.chipExclusive = true → chip.allocations ≠ []) →
    chip'.chipExclusive = true → chip'.allocations ≠ []
  mark : restored → (∃ a ∈ chip.allocations, a.jobid ≠ jobid) →
    chip'.chipExclusive = chip.chipExclusive

namespace Chip.Extends

variable {restored : Prop} {jobid : String} {chip chip' chip'' : Chip}

theorem refl (chip : Chip) : Extends restored jobid chip chip where
  records := ⟨[], by simp⟩
  accounts _ accounts := accounts
  marked marked := marked
  mark _ _ := rfl

theorem trans (first : Extends restored jobid chip chip')
    (second : Extends restored jobid chip' chip'') : Extends restored jobid chip chip'' where
  records := by
    obtain ⟨added, listed, own⟩ := first.records
    obtain ⟨added', listed', own'⟩ := second.records
    exact ⟨added ++ added', by rw [listed', listed, append_assoc], forall_mem_append.mpr ⟨own, own'⟩⟩
  accounts layout accounts := second.accounts layout (first.accounts layout accounts)
  marked marked := second.marked (first.marked marked)
  mark := by
    intro wanted ⟨a, mem, other⟩
    obtain ⟨added, listed, _⟩ := first.records
    have still : ∃ a ∈ chip'.allocations, a.jobid ≠ jobid :=
      ⟨a, by rw [listed]; exact mem_append_left _ mem, other⟩
    rw [second.mark wanted still, first.mark wanted ⟨a, mem, other⟩]

end Chip.Extends

/-! ## Chips and an allocation -/

/-- How often the records of a job on the chip list the resource. -/
def Chip.recorded (jobid : String) (resource : Resource) (chip : Chip) : Nat :=
  ((chip.allocations.filter fun a => a.jobid = jobid).flatMap Allocation.resources).count resource

/-- How often the records of a job on all chips list the resource. -/
def recordedOn (jobid : String) (chips : List Chip) (resource : Resource) : Nat :=
  (chips.map (Chip.recorded jobid resource)).sum

theorem recordedOn_append (jobid : String) (chips others : List Chip) (resource : Resource) :
    recordedOn jobid (chips ++ others) resource =
      recordedOn jobid chips resource + recordedOn jobid others resource := by
  simp [recordedOn]

/-- Chips grow by records of the job, and an allocation by no more than these. -/
structure Grows (restored : Prop) (jobid : String) (chips chips' : List Chip)
    (a a' : Allocation) : Prop where
  extended : List.Forall₂ (Chip.Extends restored jobid) chips chips'
  recorded : ∀ resource, a'.resources.count resource + recordedOn jobid chips resource ≤
    a.resources.count resource + recordedOn jobid chips' resource
  jobid : a'.jobid = a.jobid

section

variable {restored : Prop} {jobid : String} {chips chips' chips'' others others' : List Chip}
  {a a' a'' : Allocation}

theorem Chip.Extends.recorded_le {chip chip' : Chip} (grows : Chip.Extends restored jobid chip chip')
    (other : String) (resource : Resource) :
    chip.recorded other resource ≤ chip'.recorded other resource := by
  obtain ⟨added, listed, _⟩ := grows.records
  unfold Chip.recorded
  rw [listed, filter_append, flatMap_append, count_append]
  exact Nat.le_add_right _ _

theorem recordedOn_le (grows : List.Forall₂ (Chip.Extends restored jobid) chips chips')
    (other : String) (resource : Resource) :
    recordedOn other chips resource ≤ recordedOn other chips' resource := by
  induction grows with
  | nil => exact Nat.le_refl _
  | cons one _ ih =>
    have first := one.recorded_le other resource
    simp only [recordedOn, map_cons, sum_cons] at ih ⊢
    omega

theorem extends_refl (chips : List Chip) : List.Forall₂ (Chip.Extends restored jobid) chips chips :=
  forall₂_same.mpr fun chip _ => Chip.Extends.refl chip

namespace Grows

theorem refl (chips : List Chip) (a : Allocation) : Grows restored jobid chips chips a a :=
  ⟨extends_refl chips, fun _ => Nat.le_refl _, rfl⟩

theorem trans (first : Grows restored jobid chips chips' a a')
    (second : Grows restored jobid chips' chips'' a' a'') :
    Grows restored jobid chips chips'' a a'' where
  extended := forall₂_trans (fun _ _ _ before after => before.trans after)
    first.extended second.extended
  recorded resource := by
    have before := first.recorded resource
    have after := second.recorded resource
    omega
  jobid := second.jobid.trans first.jobid

/-- First some chips, then the chips behind them. -/
theorem append (first : Grows restored jobid chips chips' a a')
    (second : Grows restored jobid others others' a' a'') :
    Grows restored jobid (chips ++ others) (chips' ++ others') a a'' where
  extended := rel_append first.extended second.extended
  recorded resource := by
    have before := first.recorded resource
    have after := second.recorded resource
    rw [recordedOn_append, recordedOn_append]
    omega
  jobid := second.jobid.trans first.jobid

/-- What was recorded need not be entered into the allocation. -/
theorem keep (extended : List.Forall₂ (Chip.Extends restored jobid) chips chips')
    (a : Allocation) : Grows restored jobid chips chips' a a :=
  ⟨extended, fun resource => Nat.add_le_add_left (recordedOn_le extended jobid resource) _, rfl⟩

variable (grows : Grows restored jobid chips chips' a a')
include grows

/-- The allocation of a task that listed nothing at first is added to another. -/
theorem add (blank : a.resources = []) (other : Allocation) :
    Grows restored jobid chips chips' other (other.add a') where
  extended := grows.extended
  recorded resource := by
    have count := grows.recorded resource
    rw [blank, count_nil] at count
    rw [Allocation.count_resources_add]
    omega
  jobid := rfl

/-- Only the resources and the job of the allocation matter. -/
theorem relabel {other other' : Allocation} (same : other.resources = a.resources)
    (same' : other'.resources = a'.resources) (kept : other'.jobid = other.jobid) :
    Grows restored jobid chips chips' other other' where
  extended := grows.extended
  recorded resource := by
    rw [same, same']
    exact grows.recorded resource
  jobid := kept

end Grows

end

/-! ## Bookings on a chip -/

/-- A booking that was opened on the chip and has been filled since. -/
structure Chip.Books (chip : Chip) (b : Booking) : Prop where
  records : b.chip.allocations = chip.allocations
  exclusive : b.chip.chipExclusive = chip.chipExclusive
  threads : b.alloc.processors = [] → b.alloc.threads = 0
  accounts : ∀ (layout : ChipLayout) (base : List Allocation),
    layout.Accounts chip base → layout.Accounts b.chip (base ++ [b.alloc])

namespace Chip.Books

variable {restored : Prop} {jobid : String} {chip : Chip} {b b' : Booking}

theorem start
    (opened : b.chip = { chip with availableMemory := chip.availableMemory - b.alloc.memory })
    (blank : b.alloc.resources = []) (unused : b.alloc.threads = 0)
    (enough : b.alloc.memory ≤ chip.availableMemory) : chip.Books b where
  records := by rw [opened]
  exclusive := by rw [opened]
  threads _ := unused
  accounts layout base accounts := by
    obtain ⟨processors, held, cores⟩ := ChipLayout.holds_of_blank layout blank
    apply accounts.concat fun _ old => old
    · rw [opened, ChipLayout.tally_concat, held, cores, unused, append_nil, Int.add_zero,
        Int.add_zero]
      exact accounts.shows.takeMemory enough
    · intro _ name inside
      rw [processors] at inside
      contradiction
    · rw [unused, ChipLayout.unitsOf, processors]
      rfl

variable (books : chip.Books b)
include books

theorem leads (leads : Booking.Leads b b') : chip.Books b' where
  records := leads.records.trans books.records
  exclusive := leads.exclusive.trans books.exclusive
  threads empty := by
    obtain ⟨before, same⟩ := leads.threads empty
    rw [same, books.threads before]
  accounts layout base accounts := leads.accounts layout base (books.accounts layout base accounts)

/-- A booking within a booking is added to it. -/
theorem add {task : Booking} (inner : b.chip.Books task)
    (kind : task.alloc.coresOnly = b.alloc.coresOnly) :
    chip.Books ⟨task.chip, b.alloc.add task.alloc⟩ where
  records := inner.records.trans books.records
  exclusive := inner.exclusive.trans books.exclusive
  threads empty := by
    simp only [Allocation.processors, Allocation.add, append_eq_nil_iff] at empty
    obtain ⟨⟨cpus, cpus'⟩, places, places'⟩ := empty
    have first := books.threads (by rw [Allocation.processors, cpus, places]; rfl)
    have second := inner.threads (by rw [Allocation.processors, cpus', places']; rfl)
    simp only [Allocation.add, first, second, Int.add_zero]
  accounts layout base accounts :=
    (inner.accounts layout _ (books.accounts layout base accounts)).add kind

theorem push (own : b.alloc.jobid = jobid) (exclusive : Bool)
    (mark : restored → (∃ a ∈ chip.allocations, a.jobid ≠ jobid) →
      exclusive = chip.chipExclusive) :
    Extends restored jobid chip { b.pushAllocation with chipExclusive := exclusive } where
  records := ⟨[b.alloc], by simp only [Booking.pushAllocation, books.records],
    forall_mem_singleton.mpr own⟩
  accounts layout accounts := by
    have pushed := books.accounts layout chip.allocations accounts
    simp only [Booking.pushAllocation, books.records]
    exact ⟨pushed.shows.relabel _ _, pushed.named, pushed.counted⟩
  marked := by
    intro _ _
    simp [Booking.pushAllocation]
  mark := mark

/-- What the booking lists is recorded with it. -/
theorem grows (own : b.alloc.jobid = jobid) (exclusive : Bool)
    (mark : restored → (∃ a ∈ chip.allocations, a.jobid ≠ jobid) →
      exclusive = chip.chipExclusive) (a : Allocation) :
    Grows restored jobid [chip] [{ b.pushAllocation with chipExclusive := exclusive }] a
      (a.add b.alloc) where
  extended := List.Forall₂.cons (books.push own exclusive mark) List.Forall₂.nil
  recorded resource := by
    rw [Allocation.count_resources_add]
    simp only [recordedOn, Chip.recorded, Booking.pushAllocation, books.records, map_cons, map_nil,
      sum_cons, sum_nil, filter_append, flatMap_append, count_append]
    rw [filter_cons_of_pos (by simpa using own)]
    simp only [filter_nil, flatMap_cons, flatMap_nil, append_nil]
    omega
  jobid := rfl

/-- A booking that came to nothing is forgotten. -/
theorem forget (blank : b.alloc.resources = []) (none : b.alloc.memory = 0) :
    Extends restored jobid chip b.chip where
  records := ⟨[], by simp [books.records]⟩
  accounts layout accounts := by
    have processors := (ChipLayout.holds_of_blank layout blank).1
    rw [books.records]
    exact (books.accounts layout chip.allocations accounts).drop blank (books.threads processors)
      none
  marked marked := by
    rw [books.records, books.exclusive]
    exact marked
  mark _ _ := books.exclusive

/-- A booking that was recorded is taken back. -/
theorem takenBack (own : b.alloc.jobid = jobid) :
    Extends restored jobid chip
      (({ b.pushAllocation with chipExclusive := chip.chipExclusive } : Chip).removeLastAllocation
        jobid) := by
  have pushed : Extends restored jobid chip _ := books.push own chip.chipExclusive fun _ _ => rfl
  obtain ⟨records, exclusive⟩ : (({ b.pushAllocation with chipExclusive := chip.chipExclusive } :
      Chip).removeLastAllocation jobid).allocations = chip.allocations ∧
        (({ b.pushAllocation with chipExclusive := chip.chipExclusive } :
          Chip).removeLastAllocation jobid).chipExclusive = chip.chipExclusive := by
    simp [Chip.removeLastAllocation, Booking.pushAllocation, books.records, own,
      ChipLayout.uncountAllocation_chipExclusive]
  constructor
  · exact ⟨[], by simp [records]⟩
  · intro layout accounts
    exact (pushed.accounts layout accounts).removeLastAllocation jobid
  · intro marked
    rw [records, exclusive]
    exact marked
  · intro _ _
    exact exclusive

end Chip.Books

end Torque.Numa
