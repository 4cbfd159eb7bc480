import Torque.Numa.ChipPlacing

/-!
# Placing tasks on a socket adds records

What is known of the chips is carried through the loops over the chips of a
socket.  A task that spans these chips and cannot be finished leaves no record
on them.
-/

namespace Torque.Numa

open Torque.Transition Traced

variable {F : Type} [Floating F] {restored : Prop}

/-- An allocation has been filled from chips, and is still to be placed in the
same way. -/
structure Takes (restored : Prop) (chips : List Chip) (a : Allocation) (chips' : List Chip)
    (a' : Allocation) : Prop where
  grows : Grows restored a.jobid chips chips' a a'
  placeType : a'.placeType = a.placeType

namespace Takes

variable {chips chips' chips'' others others' : List Chip} {a a' a'' : Allocation}

theorem refl (chips : List Chip) (a : Allocation) : Takes restored chips a chips a :=
  ⟨Grows.refl chips a, rfl⟩

theorem trans (first : Takes restored chips a chips' a')
    (second : Takes restored chips' a' chips'' a'') : Takes restored chips a chips'' a'' where
  grows := first.grows.trans (first.grows.jobid ▸ second.grows)
  placeType := second.placeType.trans first.placeType

theorem append (first : Takes restored chips a chips' a')
    (second : Takes restored others a' others' a'') :
    Takes restored (chips ++ others) a (chips' ++ others') a'' where
  grows := first.grows.append (first.grows.jobid ▸ second.grows)
  placeType := second.placeType.trans first.placeType

theorem behind (chip : Chip) (takes : Takes restored chips a chips' a') :
    Takes restored (chip :: chips) a (chip :: chips') a' :=
  (refl [chip] a).append takes

variable (takes : Takes restored chips a chips' a')
include takes

theorem before (others : List Chip) : Takes restored (chips ++ others) a (chips' ++ others) a' :=
  takes.append (refl others a')

/-- An allocation that was filled from nothing is added to that of the job. -/
theorem add (blank : a.resources = []) {master : Allocation} (own : a.jobid = master.jobid) :
    Takes restored chips master chips' (master.add a') :=
  ⟨own ▸ takes.grows.add blank master, rfl⟩

end Takes

/-! ## Sockets -/

namespace Socket

variable {a remaining taskAlloc : Allocation} (r : Req)

/-- Some tasks go on a chip, and unless it is all that was asked for, others go on the chips
behind it. -/
theorem placeTask_then (chip : Chip) (chips : List Chip) (wanted : Int) {left : Int}
    (shared : a.placeType.shared) {rest : Allocation → Int → Looking Filling}
    (behind : ∀ {a : Allocation} (left : Int), a.placeType.shared →
      Under (Look.Fair restored) (rest a left) fun f =>
        Takes restored chips a f.chips f.alloc) :
    Under (Look.Fair restored)
      (do
        let done ← chip.placeTask F r a wanted
        if done.placed ≠ 0 ∧ a.placeType = .socket then
          pure ⟨done.chip :: chips, done.master, left - done.placed⟩
        else do
          let rest ← rest done.master (left - done.placed)
          pure (rest.behind done.chip))
      fun f => Takes restored (chip :: chips) a f.chips f.alloc := by
  refine Under.bind (chip.placeTask_grows r a wanted shared) fun done made => ?_
  have first : Takes restored [chip] a [done.chip] done.master := ⟨made.1, made.2⟩
  split
  · exact Under.pure (first.before chips)
  · refine Under.bind (behind _ (made.2 ▸ shared)) fun rest takes => Under.pure ?_
    exact first.append takes

theorem placeOnOneChip_takes (toPlace : Int) (chips : List Chip) (left : Int)
    (shared : a.placeType.shared) :
    Under (Look.Fair restored) (placeOnOneChip F r toPlace chips a left) fun f =>
      Takes restored chips a f.chips f.alloc := by
  induction chips generalizing a left with
  | nil => exact Under.pure (Takes.refl [] a)
  | cons chip chips ih =>
    unfold placeOnOneChip
    split
    · split
      · exact placeTask_then r chip chips toPlace shared ih
      · exact Under.bind (ih left shared) fun rest takes =>
          Under.pure (takes.behind chip)
    · exact Under.pure (Takes.refl _ a)

theorem placeChipByChip_takes (chips : List Chip) (left : Int) (shared : a.placeType.shared) :
    Under (Look.Fair restored) (placeChipByChip F r chips a left) fun f =>
      Takes restored chips a f.chips f.alloc := by
  induction chips generalizing a left with
  | nil => exact Under.pure (Takes.refl [] a)
  | cons chip chips ih =>
    unfold placeChipByChip
    split
    · exact placeTask_then r chip chips left shared ih
    · exact Under.pure (Takes.refl _ a)

/-- The parts of a task that spans chips, with the chips as they are if the parts
are taken back. -/
theorem spanChips_grows (chips : List Chip) (shared : remaining.placeType.shared) :
    Under (Look.Fair restored) (spanChips F chips remaining taskAlloc) fun span =>
      Grows restored taskAlloc.jobid chips (span.chips.map Prod.fst) taskAlloc span.taskAlloc ∧
        List.Forall₂ (Chip.Extends restored taskAlloc.jobid) chips
          (takeBack taskAlloc.jobid span.chips) := by
  induction chips generalizing remaining taskAlloc with
  | nil => exact Under.pure ⟨Grows.refl [] taskAlloc, List.Forall₂.nil⟩
  | cons chip chips ih =>
    unfold spanChips
    split
    · apply Under.pure
      have same : ((chip :: chips).map fun chip => (chip, false)).map Prod.fst =
          chip :: chips := by
        simp [Function.comp_def]
      have kept : takeBack taskAlloc.jobid ((chip :: chips).map fun chip => (chip, false)) =
          chip :: chips := by
        simp [takeBack, Function.comp_def]
      rw [same, kept]
      exact ⟨Grows.refl _ taskAlloc, extends_refl _⟩
    · refine Under.bind (chip.partiallyPlaceTask_grows remaining taskAlloc shared)
        fun part placed => ?_
      obtain ⟨grows, undone, placeType⟩ := placed
      refine Under.bind (ih (placeType ▸ shared)) fun rest more => Under.pure ?_
      rw [grows.jobid] at more
      exact ⟨grows.append more.1, List.Forall₂.cons undone more.2⟩

theorem placeSpanning_takes {master : Allocation} (rounds : Nat) (chips : List Chip) (left : Int)
    (own : a.jobid = master.jobid) (shared : r.placeType.shared) :
    Under (Look.Fair restored) (placeSpanning F r master rounds chips a left) fun f =>
      Takes restored chips a f.chips f.alloc := by
  induction rounds generalizing chips a left with
  | zero => exact Under.pure (Takes.refl _ a)
  | succ rounds ih =>
    unfold placeSpanning
    split
    · refine Under.bind (spanChips_grows chips shared) fun span grown => ?_
      rw [show ({ jobid := master.jobid, coresOnly := master.coresOnly } : Allocation).jobid =
        a.jobid from own.symm] at grown
      obtain ⟨grows, undone⟩ := grown
      split
      · have next : Takes restored chips a (span.chips.map Prod.fst) (a.add span.taskAlloc) :=
          ⟨grows.add rfl a, rfl⟩
        exact (ih (span.chips.map Prod.fst) (a := a.add span.taskAlloc) (left - 1) own).mono
          fun f takes => next.trans takes
      · split
        · apply Under.pure
          rw [← own]
          exact ⟨Grows.keep undone a, rfl⟩
        · exact Under.pure ⟨Grows.keep grows.extended a, rfl⟩
    · exact Under.pure (Takes.refl _ a)

theorem fillChips_takes (master : Allocation) (chips : List Chip) (toPlace : Int)
    (shared : master.placeType.shared) (sharedReq : r.placeType.shared) :
    Under (Look.Fair restored) (fillChips F r master chips toPlace) fun f =>
      Takes restored chips { jobid := master.jobid, placeType := master.placeType } f.chips
        f.alloc := by
  refine Under.bind (placeOnOneChip_takes r toPlace chips toPlace shared)
    fun one first => ?_
  split
  · refine Under.bind (placeChipByChip_takes r one.chips one.toPlace
      (first.placeType ▸ shared)) fun each second => ?_
    have both := first.trans second
    split
    · refine Under.mono (placeSpanning_takes r each.toPlace.toNat each.chips each.toPlace
        both.grows.jobid sharedReq) fun f takes => ?_
      exact both.trans takes
    · exact Under.pure both
  · exact Under.pure first

variable (socket : Socket) (r : Req)

theorem placeTask_takes (master : Allocation) (toPlace : Int) (shared : master.placeType.shared)
    (sharedReq : r.placeType.shared) :
    Under (Look.Fair restored) (socket.placeTask F r master toPlace) fun done =>
      Takes restored socket.chips master done.socket.chips done.master := by
  unfold placeTask
  split
  · refine Under.bind (fillChips_takes r master socket.chips toPlace shared sharedReq)
      fun done takes => ?_
    split
    · exact Under.pure (takes.add rfl rfl)
    · exact Under.pure ⟨Grows.keep takes.grows.extended master, rfl⟩
  · exact Under.pure (Takes.refl _ master)

/-- What the functions that place parts of a task know: how it is placed does not
change, and a task said to be placed has no processors left to place. -/
structure Part (restored : Prop) (chips : List Chip) (remaining taskAlloc : Allocation)
    (chips' : List Chip) (remaining' taskAlloc' : Allocation) (placed : Bool) : Prop where
  grows : Grows restored taskAlloc.jobid chips chips' taskAlloc taskAlloc'
  placeType : remaining'.placeType = remaining.placeType
  done : placed = true → remaining'.cpus = 0

theorem partiallyPlace_part (shared : remaining.placeType.shared) :
    Under (Look.Fair restored) (socket.partiallyPlace F remaining taskAlloc) fun part =>
      Part restored socket.chips remaining taskAlloc part.chips part.remaining part.taskAlloc
        part.fullyPlaced := by
  unfold partiallyPlace
  generalize socket.chips = chips
  induction chips generalizing remaining taskAlloc with
  | nil => exact Under.pure ⟨Grows.refl [] _, rfl, nofun⟩
  | cons chip chips ih =>
    refine Under.bind (chip.partiallyPlaceTask_grows remaining taskAlloc shared)
      fun part placed => ?_
    obtain ⟨grows, -, placeType⟩ := placed
    split
    · rename_i full
      apply Under.pure
      refine ⟨grows.append (Grows.refl chips _), placeType, fun _ => ?_⟩
      simp only [Allocation.fullyPlaced, decide_eq_true_eq] at full
      exact full.1
    · refine Under.bind (ih (placeType ▸ shared)) fun rest more => Under.pure ?_
      exact ⟨grows.append (grows.jobid ▸ more.grows), more.placeType.trans placeType, more.done⟩

/-! ### Chips of their own -/

theorem spreadOnChip_grows (restored : Prop) (slots : Int) (chips : List Chip) (taskAlloc : Allocation)
    (slotsRemainder : Int) :
    Grows restored taskAlloc.jobid chips (spreadOnChip F slots chips taskAlloc slotsRemainder).chips
      taskAlloc (spreadOnChip F slots chips taskAlloc slotsRemainder).taskAlloc := by
  induction chips generalizing taskAlloc slotsRemainder with
  | nil => exact Grows.refl [] taskAlloc
  | cons chip chips ih =>
    have first := chip.spreadPlace_grows (F := F) restored taskAlloc slots slotsRemainder
    unfold spreadOnChip
    dsimp only
    split
    · exact first.append (Grows.refl chips _)
    · exact first.append (first.jobid ▸ ih _ _)

theorem spreadOnChips_grows (restored : Prop) (perNuma : Int) (rounds : Nat) (perNumaRemainder : Int)
    (s : Spreading) :
    Grows restored s.taskAlloc.jobid s.chips (spreadOnChips F perNuma rounds perNumaRemainder s).chips
      s.taskAlloc (spreadOnChips F perNuma rounds perNumaRemainder s).taskAlloc := by
  induction rounds generalizing perNumaRemainder s with
  | zero => exact Grows.refl _ _
  | succ rounds ih =>
    unfold spreadOnChips
    have first := spreadOnChip_grows (F := F) restored
      (if 0 < perNumaRemainder then perNuma + 1 else perNuma) s.chips s.taskAlloc s.slotsRemainder
    generalize spreadOnChip F (if 0 < perNumaRemainder then perNuma + 1 else perNuma) s.chips
      s.taskAlloc s.slotsRemainder = next at first ⊢
    have rest := fun perNumaRemainder =>
      ih perNumaRemainder { next with placed := s.placed || next.placed }
    rw [first.jobid] at rest
    exact first.trans (rest _)

theorem spreadPlace_grows (restored : Prop) (taskAlloc : Allocation) (slotsPer slotsRemainder : Int)
    (chip : Bool) :
    Grows restored taskAlloc.jobid socket.chips
      (socket.spreadPlace F taskAlloc slotsPer slotsRemainder chip).socket.chips taskAlloc
      (socket.spreadPlace F taskAlloc slotsPer slotsRemainder chip).taskAlloc := by
  unfold spreadPlace
  split
  · cases chip with
    | true =>
      exact spreadOnChips_grows restored slotsPer 1 0
        ⟨false, socket.chips, taskAlloc, slotsRemainder⟩
    | false =>
      exact spreadOnChips_grows restored _ _ _ ⟨false, socket.chips, taskAlloc, slotsRemainder⟩
  · exact Grows.refl _ _

theorem placeAllExecutionSlots_grows (taskAlloc : Allocation) :
    Under (Look.Fair restored) (socket.placeAllExecutionSlots r taskAlloc) fun done =>
      Grows restored taskAlloc.jobid socket.chips done.1.chips taskAlloc done.2 := by
  have chips : Under (Look.Fair restored) (placeAllOnChips r socket.chips taskAlloc)
      fun done => Grows restored taskAlloc.jobid socket.chips done.1 taskAlloc done.2 := by
    generalize socket.chips = chips
    induction chips generalizing taskAlloc with
    | nil => exact Under.pure (Grows.refl [] taskAlloc)
    | cons chip chips ih =>
      refine Under.bind (chip.placeAllExecutionSlots_grows r taskAlloc)
        fun done first => ?_
      refine Under.bind (ih done.2) fun rest second => Under.pure ?_
      exact first.append (first.jobid ▸ second)
  exact Under.bind chips fun done grows => Under.pure grows

end Socket

end Torque.Numa
