import Torque.Numa.Parts
import Torque.Numa.Runs

/-!
# How many units `spread_place` reserves

On an idle chip a share of no more slots than cores takes whole cores, those that a walk in steps
of type `float` comes to, with all of their units.  A greater share is first given out evenly, and
the rest in a pass over the cores.  The slot that is to come on top of the share is placed in that
pass, and is lost if there is no rest.
-/

namespace Torque.Numa

open Torque.Arith List

/-- The units of a core that are not busy. -/
def Core.openUnits (core : Core) : Nat :=
  core.units.countP fun unit => !unit.busy

/-- The units of a chip that are not busy. -/
def Chip.openUnits (chip : Chip) : Nat :=
  (chip.cores.map Core.openUnits).sum

/-- A chip without allocations, whose `c` cores have `t` units each, none of them busy. -/
structure Chip.Idle (chip : Chip) (c t : Nat) : Prop where
  isCompletelyFree : chip.isCompletelyFree = true
  totalCores : chip.totalCores = c
  totalThreads : chip.totalThreads = c * t
  cores : chip.cores.length = c
  free : ∀ core ∈ chip.cores, core.free = true
  threads : ∀ core ∈ chip.cores, core.units.length = t
  idle : ∀ core ∈ chip.cores, ∀ unit ∈ core.units, unit.busy = false

theorem countP_setFirst_idle (units : List Pu) :
    (setFirst (fun unit => !unit.busy) true units).countP (fun unit => !unit.busy) =
      units.countP (fun unit => !unit.busy) - 1 := by
  induction units with
  | nil => rfl
  | cons unit units ih =>
    unfold setFirst
    cases busy : unit.busy with
    | true => simp [busy, ih]
    | false => simp [busy]

theorem Core.openUnits_getOpenProcessingUnit (core : Core) :
    core.getOpenProcessingUnit.1.isSome = decide (0 < core.openUnits) ∧
      core.getOpenProcessingUnit.2.openUnits = core.openUnits - 1 := by
  unfold getOpenProcessingUnit
  cases found : core.units.find? fun unit => !unit.busy with
  | some unit =>
    have some_ : 0 < core.openUnits :=
      countP_pos_iff.2 ⟨unit, mem_of_find?_eq_some found, (find?_some found :)⟩
    exact ⟨(decide_eq_true some_).symm, countP_setFirst_idle core.units⟩
  | none =>
    have none_ : core.openUnits = 0 := countP_eq_zero.mpr (find?_eq_none.mp found)
    rw [none_]
    exact ⟨rfl, none_⟩

/-! ## Cores -/

/-- What `reserve_core` asks of a core, and how many units it can take. -/
def Core.state (core : Core) : Bool × Nat :=
  (core.free, core.openUnits)

theorem Core.state_takeUnits {core : Core} {rounds : Nat} (enough : core.openUnits < rounds) :
    (core.takeUnits rounds).state = (false, 0) := by
  induction rounds generalizing core with
  | zero => omega
  | succ rounds ih =>
    obtain ⟨found, left⟩ := core.openUnits_getOpenProcessingUnit
    have taken : core.getOpenProcessingUnit.2.free = false := by
      unfold getOpenProcessingUnit
      split <;> rfl
    unfold takeUnits
    split
    · next none =>
      rw [none, Option.isSome_none, eq_comm, decide_eq_false_iff_not] at found
      rw [state, taken, left, Nat.eq_zero_of_not_pos found]
    · next some =>
      rw [← ne_eq, ← Option.isSome_iff_ne_none, found, decide_eq_true_eq] at some
      exact ih (by omega)

/-- The states of the cores when those that are listed have been reserved. -/
def reservedStates (c t : Nat) (reserved : List Nat) : List (Bool × Nat) :=
  (range c).map fun position => if position ∈ reserved then (false, 0) else (true, t)

theorem reservedStates_congr (c t : Nat) {reserved reserved' : List Nat}
    (same : ∀ position < c, position ∈ reserved ↔ position ∈ reserved') :
    reservedStates c t reserved = reservedStates c t reserved' := by
  refine map_congr_left fun position mem => ?_
  simp only [same position (mem_range.mp mem)]

theorem set_reservedStates (c t : Nat) (reserved : List Nat) (coreIndex : Nat) :
    (reservedStates c t reserved).set coreIndex (false, 0) =
      reservedStates c t (coreIndex :: reserved) := by
  apply ext_getElem
  · simp [reservedStates]
  · intro position _ _
    by_cases same : coreIndex = position
    · simp [reservedStates, same]
    · simp [reservedStates, same, Ne.symm same]

theorem Booking.states_reserveCore {b : Booking} {c t : Nat} {reserved : List Nat}
    (states : b.chip.cores.map Core.state = reservedStates c t reserved) (coreIndex : Nat) :
    (b.reserveCore coreIndex).chip.cores.map Core.state =
      reservedStates c t (coreIndex :: reserved) := by
  have length : b.chip.cores.length = c := by simpa [reservedStates] using congrArg length states
  unfold reserveCore takeCore
  split
  · next core found =>
    split
    · next free =>
      have few : core.openUnits < core.units.length + 1 := Nat.lt_succ_of_le countP_le_length
      rw [map_set, Core.state_takeUnits few, states, set_reservedStates]
    · next taken =>
      -- a core that is not free has been reserved before
      obtain ⟨inside, here⟩ := List.getElem?_eq_some_iff.mp found
      have state : (reservedStates c t reserved)[coreIndex]? = some core.state := by
        rw [← states, getElem?_map, found, Option.map_some]
      have before : coreIndex ∈ reserved := by
        by_contra absent
        rw [reservedStates, getElem?_map, getElem?_range (length ▸ inside), Option.map_some,
          if_neg absent, Option.some_inj] at state
        exact taken (congrArg Prod.fst state).symm
      rw [states]
      exact reservedStates_congr c t fun position _ => by
        rw [mem_cons, or_iff_right_of_imp (by rintro rfl; exact before)]
  · next outside =>
    rw [states]
    refine reservedStates_congr c t fun position inside => ?_
    have beyond := getElem?_eq_none_iff.mp outside
    rw [mem_cons, or_iff_right (by omega)]

theorem Booking.states_foldl_reserveCore {c t : Nat} (indices : List Int) {b : Booking}
    {reserved : List Nat} (states : b.chip.cores.map Core.state = reservedStates c t reserved) :
    (indices.foldl (fun b index => b.reserveCore index.toNat) b).chip.cores.map Core.state =
      reservedStates c t ((indices.map Int.toNat).reverse ++ reserved) := by
  induction indices generalizing b reserved with
  | nil => exact states
  | cons index indices ih =>
    rw [foldl_cons, map_cons, reverse_cons, append_assoc, singleton_append]
    exact ih (states_reserveCore states index.toNat)

theorem sum_map_ite_zero (positions : List Nat) (t : Nat) (p : Nat → Bool) :
    (positions.map fun position => if p position then 0 else t).sum + positions.countP p * t =
      positions.length * t := by
  induction positions with
  | nil => simp
  | cons position positions ih =>
    cases here : p position <;> simp only [map_cons, sum_cons, countP_cons, here, length_cons,
      if_true, Bool.false_eq_true, if_false, Nat.add_mul, Nat.zero_mul] <;> omega

theorem sum_reservedStates (c t : Nat) (reserved : List Nat) :
    ((reservedStates c t reserved).map Prod.snd).sum +
      (range c).countP (fun position => decide (position ∈ reserved)) * t = c * t := by
  have sum := sum_map_ite_zero (range c) t fun position => decide (position ∈ reserved)
  rw [length_range] at sum
  rw [← sum, reservedStates, map_map]
  congr 3
  funext position
  by_cases mem : position ∈ reserved <;> simp [mem]

section

variable (F : Type) [Floating F]

/-- The cores that the loop of `spread_place` over the cores comes to. -/
def spreadWalk (step : F) : Nat → F → List Int
  | 0, _ => []
  | rounds + 1, i => Floating.round i :: spreadWalk step rounds (Floating.add i step)

/-- The cores for so many slots, of `totalCores` cores. -/
def spreadIndices (totalCores slots : Int) : List Int :=
  spreadWalk F
    (if 0 < slots then Floating.div (Floating.ofInt totalCores) (Floating.ofInt slots)
      else Floating.ofInt 1)
    slots.toNat (Floating.ofInt 0)

/-- How many of `c` cores the walk comes to. -/
def coresMet (c : Nat) (indices : List Int) : Nat :=
  (range c).countP fun position : Nat => decide ((position : Int) ∈ indices)

variable {F}

theorem spreadCores_eq_foldl (step : F) (rounds : Nat) (i : F) (b : Booking) :
    spreadCores F step rounds i b =
      (spreadWalk F step rounds i).foldl (fun b index => b.reserveCore index.toNat) b := by
  induction rounds generalizing i b with
  | zero => rfl
  | succ rounds ih => exact ih _ _

end

/-! ## Threads -/

/-- The open units of each core. -/
def Booking.levels (b : Booking) : List Nat :=
  b.chip.cores.map Core.openUnits

/-- `reserve_thread` takes an open unit of the core, if there is one. -/
theorem Booking.reserveThread_levels (b : Booking) (position : Nat) :
    (b.reserveThread position).1 = decide (0 < b.levels[position]?.getD 0) ∧
      (b.reserveThread position).2.levels =
        b.levels.set position (b.levels[position]?.getD 0 - 1) := by
  unfold reserveThread levels
  rw [getElem?_map]
  cases found : b.chip.cores[position]? with
  | none =>
    refine ⟨rfl, (set_eq_of_length_le ?_).symm⟩
    rw [length_map]
    exact getElem?_eq_none_iff.mp found
  | some core =>
    obtain ⟨taken, left⟩ := core.openUnits_getOpenProcessingUnit
    dsimp only [Option.map_some, Option.getD_some]
    rw [← taken, ← left]
    rcases core.getOpenProcessingUnit with ⟨_ | index, after⟩ <;> exact ⟨rfl, map_set⟩

namespace Spread

variable (slots : Int) {n k p : Nat} {s : Spread} {front : List Nat}

/-- What a part of `spread_place` has done: threads placed, and what is left. -/
structure Reaches (s : Spread) (placed remainder : Int) (levels : List Nat) : Prop where
  placed : s.placed = placed
  remainder : s.remainder = remainder
  levels : s.booking.levels = levels

theorem fillCore_reaches (room : s.booking.levels[p]? = some (n + k)) :
    (s.fillCore p n).Reaches (s.placed + n) s.remainder (s.booking.levels.set p k) := by
  induction n generalizing s with
  | zero =>
    obtain ⟨inside, here⟩ := List.getElem?_eq_some_iff.1 room
    rw [Nat.zero_add] at here
    exact ⟨(Int.add_zero _).symm, rfl, by rw [← here, set_getElem_self]; rfl⟩
  | succ n ih =>
    obtain ⟨taken, levels⟩ := s.booking.reserveThread_levels p
    rw [room, Option.getD_some, Nat.add_right_comm] at taken levels
    unfold fillCore
    dsimp only
    rw [taken, decide_eq_true (Nat.succ_pos _), if_pos rfl]
    obtain ⟨placed, remainder, left⟩ := ih
      (s := ⟨(s.booking.reserveThread p).2, s.placed + 1, s.remainder⟩)
      (by rw [levels, getElem?_set_self (List.getElem?_eq_some_iff.1 room).1]; rfl)
    exact ⟨by rw [placed]; push_cast; omega, remainder, by rw [left, levels, set_set]⟩

variable (front)

/-- The cores behind the front each get the share. -/
theorem fillCores_reaches (some : 0 < n) {count : Nat}
    (levels : s.booking.levels = front ++ replicate count (n + k))
    (few : s.placed + n * count ≤ slots) :
    (s.fillCores slots n (range' front.length count)).Reaches (s.placed + n * count) s.remainder
      (front ++ replicate count k) := by
  induction count generalizing s front with
  | zero => exact ⟨by simp [fillCores], rfl, levels⟩
  | succ count ih =>
    obtain ⟨placed, remainder, after⟩ := fillCore_reaches (s := s) (p := front.length) (n := n)
      (k := k) (by simp [levels, replicate_succ])
    rw [Nat.cast_succ, Int.mul_add, Int.mul_one] at few ⊢
    have rest : 0 ≤ (n * count : Int) := by positivity
    rw [range'_succ]
    unfold fillCores
    rw [if_pos (by omega)]
    obtain ⟨more, same, left⟩ := ih (front ++ [k]) (s := s.fillCore front.length n)
      (by simp [after, levels, replicate_succ]) (by omega)
    rw [length_append, length_singleton] at more same left
    refine ⟨by omega, same.trans remainder, ?_⟩
    rw [left, replicate_succ, append_assoc, singleton_append]

/-- The cores behind the front each get one more, until there are enough. -/
theorem pass_reaches {count m rest : Nat} (split : count = m + rest)
    (wanted : s.placed + m = slots)
    (levels : s.booking.levels = front ++ replicate count (k + 1)) :
    (s.pass slots (range' front.length count)).Reaches slots (s.remainder - m)
      (front ++ (replicate m k ++ replicate rest (k + 1))) := by
  subst split
  induction m generalizing s front with
  | zero =>
    have all : s.placed = slots := by omega
    have stays : s.pass slots (range' front.length (0 + rest)) = s := by
      cases range' front.length (0 + rest) with
      | nil => rfl
      | cons position positions => exact if_neg (by omega)
    rw [stays]
    exact ⟨all, (Int.sub_zero _).symm, by simpa using levels⟩
  | succ m ih =>
    rw [Nat.add_right_comm] at levels ⊢
    obtain ⟨taken, after⟩ := s.booking.reserveThread_levels front.length
    have here : s.booking.levels[front.length]? = some (k + 1) := by
      simp [levels, replicate_succ]
    rw [here, Option.getD_some] at taken after
    rw [range'_succ]
    unfold pass
    rw [if_pos (by omega)]
    dsimp only
    rw [taken, decide_eq_true (Nat.succ_pos _), if_pos rfl]
    obtain ⟨placed, remainder, left⟩ := ih (front ++ [k])
      (s := ⟨(s.booking.reserveThread front.length).2, s.placed + 1, s.remainder - 1⟩)
      (by dsimp only; omega) (by simp [after, levels, replicate_succ])
    rw [length_append, length_singleton] at placed remainder left
    refine ⟨placed, ?_, ?_⟩
    · rw [remainder]
      push_cast
      omega
    · rw [left, replicate_succ, append_assoc, singleton_append, cons_append]

end Spread

theorem Spread.passes_of_le (slots : Int) (positions : List Nat) (rounds : Nat) {s : Spread}
    (none : s.remainder ≤ 0) : s.passes slots positions rounds = s := by
  cases rounds with
  | zero => rfl
  | succ rounds => exact if_neg (Int.not_lt.2 none)

/-- First every core gets the same share. -/
theorem Booking.spreadOut_eq_passes {b : Booking} {c q k r : Nat} (extra : Bool)
    (total : b.chip.totalCores = c) (even : b.levels = replicate c (q + k)) (share : 0 < q)
    (less : r < c) :
    ∃ shared : Spread, shared.Reaches (c * q - extra.toNat) r (replicate c k) ∧
      b.spreadOut (c * q + r : Nat) extra = shared.passes (c * q + r : Nat) (range' 0 c) r := by
  have cores : b.chip.cores.length = c := by simpa [levels] using congrArg length even
  have start : (if extra then -1 else 0 : Int) = -extra.toNat := by cases extra <;> rfl
  have some : 0 < c := by omega
  have reaches := Spread.fillCores_reaches (c * q + r : Nat) [] (s := ⟨b, -extra.toNat, r⟩) share
    even (by rw [Int.mul_comm]; push_cast; omega)
  refine ⟨_, ⟨?_, reaches.remainder, reaches.levels⟩, ?_⟩
  · rw [reaches.placed, Int.mul_comm, Int.add_comm]
    rfl
  · unfold spreadOut
    rw [total, cores, ← Int.ofNat_tdiv, ← Int.ofNat_tmod, Int.toNat_natCast, start,
      Nat.mul_add_div some, Nat.div_eq_of_lt less, Nat.add_zero, Nat.mul_add_mod,
      Nat.mod_eq_of_lt less, range_eq_range']
    have remainder := reaches.remainder
    dsimp only [length_nil] at remainder ⊢
    rw [remainder, Int.toNat_natCast]

/-- One pass is enough for the remainder, with the slot on top. -/
theorem Spread.Reaches.passes {shared : Spread} {slots : Int} {c k m rounds rest : Nat}
    (shares : shared.Reaches (slots - m) (rounds + 1 : Nat) (replicate c (k + 1)))
    (split : c = m + rest) (enough : rounds + 1 ≤ m) :
    (shared.passes slots (range' 0 c) (rounds + 1)).Reaches slots ((rounds + 1 : Nat) - m)
      (replicate m k ++ replicate rest (k + 1)) := by
  have once := Spread.pass_reaches slots [] split
    (by rw [shares.placed, Int.sub_add_cancel]) shares.levels
  rw [length_nil, nil_append, shares.remainder] at once
  unfold Spread.passes
  rw [if_pos (by rw [shares.remainder]; omega),
    Spread.passes_of_le _ _ _ (by rw [once.remainder]; omega)]
  exact once

/-- The slot on top is lost if every core gets the same share. -/
theorem Booking.openUnits_spreadOut {b : Booking} {c t slots : Nat} (extra : Bool)
    (total : b.chip.totalCores = c) (even : b.levels = replicate c t) (least : c ≤ slots)
    (some : 0 < c) (room : slots + extra.toNat ≤ c * t) :
    (b.spreadOut slots extra).remainder ≤ 0 ∧
      (b.spreadOut slots extra).booking.chip.openUnits +
        (if c ∣ slots then slots else slots + extra.toNat) = c * t := by
  have one : extra.toNat ≤ 1 := Bool.toNat_le extra
  obtain ⟨q, r, rfl, less⟩ : ∃ q r, slots = c * q + r ∧ r < c :=
    ⟨slots / c, slots % c, (Nat.div_add_mod slots c).symm, Nat.mod_lt slots some⟩
  have divides : c ∣ c * q + r ↔ r = 0 := by
    rw [Nat.dvd_add_right ⟨q, rfl⟩]
    exact ⟨fun whole => Nat.eq_zero_of_dvd_of_lt whole less, fun none => none ▸ dvd_zero c⟩
  have share : 0 < q := by
    refine Nat.pos_of_ne_zero fun none => ?_
    rw [none, Nat.mul_zero] at least
    omega
  obtain ⟨k, rfl⟩ : ∃ k, t = q + k :=
    Nat.exists_eq_add_of_le (Nat.le_of_mul_le_mul_left (by omega : c * q ≤ c * t) some)
  rw [Nat.mul_add] at room
  obtain ⟨shared, shares, result⟩ := spreadOut_eq_passes extra total even share less
  rw [result]
  split
  · next whole =>
    obtain rfl := divides.1 whole
    refine ⟨shares.remainder.le, ?_⟩
    change shared.booking.levels.sum + _ = _
    rw [shares.levels]
    simp [Nat.mul_add, Nat.add_comm]
  · next rest =>
    obtain ⟨rounds, rfl⟩ := Nat.exists_eq_add_one_of_ne_zero (mt divides.2 rest)
    obtain ⟨k, rfl⟩ : ∃ l, k = l + 1 := by
      refine Nat.exists_eq_add_one_of_ne_zero fun none => ?_
      rw [none, Nat.mul_zero] at room
      omega
    obtain ⟨others, split⟩ : ∃ others, c = rounds + 1 + extra.toNat + others :=
      Nat.exists_eq_add_of_le (by omega)
    have wanted : (c * q - extra.toNat : Int) =
        (c * q + (rounds + 1) : Nat) - (rounds + 1 + extra.toNat : Nat) := by
      push_cast
      omega
    obtain ⟨-, left, after⟩ := (wanted ▸ shares).passes split (Nat.le_add_right _ _)
    refine ⟨by rw [left]; omega, ?_⟩
    change (Spread.passes _ _ _ _).booking.levels.sum + _ = _
    rw [after]
    simp only [sum_append, sum_replicate, nsmul_eq_mul, Nat.cast_id, split]
    ring

/-! ## On an idle chip -/

section

variable (F : Type) [Floating F]

/-- The slots that `spread_place` is to reserve: one of the remainder comes on top. -/
def spreadWanted (slotsPer slotsRemainder : Int) : Int :=
  if 0 < slotsRemainder then slotsPer + 1 else slotsPer

theorem ite_decide_eq_spreadWanted (slotsPer slotsRemainder : Int) :
    (if decide (0 < slotsRemainder) = true then slotsPer + 1 else slotsPer) =
      spreadWanted slotsPer slotsRemainder := by
  simp only [decide_eq_true_eq, spreadWanted]

/-- The task is placed, on as many units as slots are wanted. -/
structure Chip.SpreadsExactly (chip : Chip) (taskAlloc : Allocation)
    (slotsPer slotsRemainder : Int) : Prop where
  taskPlaced : (chip.spreadPlace F taskAlloc slotsPer slotsRemainder).taskPlaced = true
  reserved : ((chip.spreadPlace F taskAlloc slotsPer slotsRemainder).chip.openUnits : Int) +
    spreadWanted slotsPer slotsRemainder = chip.openUnits
  /-- The loop over the cores stays within their array. -/
  inside : spreadWanted slotsPer slotsRemainder ≤ chip.totalCores →
    ∀ index ∈ spreadIndices F chip.totalCores (spreadWanted slotsPer slotsRemainder),
      0 ≤ index ∧ index < chip.cores.length
  /-- The loop over the remainder has ended. -/
  ended : chip.totalCores < spreadWanted slotsPer slotsRemainder →
    (Booking.spreadOut ⟨chip, { jobid := taskAlloc.jobid, placeType := taskAlloc.placeType }⟩
      slotsPer (decide (0 < slotsRemainder))).remainder ≤ 0

end

namespace Chip.Idle

variable {F : Type} [Floating F] {chip : Chip} {c t : Nat} (idle : chip.Idle c t)
include idle

theorem states : chip.cores.map Core.state = reservedStates c t [] := by
  have same : reservedStates c t [] = replicate c (true, t) := by
    simp [reservedStates, map_const']
  rw [same, eq_replicate_iff, length_map]
  refine ⟨idle.cores, ?_⟩
  intro state listed
  obtain ⟨core, mem, rfl⟩ := mem_map.mp listed
  have all : core.openUnits = core.units.length :=
    countP_eq_length.mpr fun unit found => by rw [idle.idle core mem unit found]; rfl
  rw [Core.state, idle.free core mem, all, idle.threads core mem]

theorem levels (alloc : Allocation) : Booking.levels ⟨chip, alloc⟩ = replicate c t := by
  have second := congrArg (map Prod.snd) idle.states
  rw [map_map] at second
  exact second.trans (by simp [reservedStates, map_const'])

theorem openUnits : chip.openUnits = c * t := by
  have sum := congrArg sum (idle.levels {})
  exact sum.trans (by simp)

/-- The loop over the cores takes all units of the cores that it comes to. -/
theorem openUnits_foldl_reserveCore {indices : List Int}
    (inside : ∀ index ∈ indices, 0 ≤ index ∧ index < c) (alloc : Allocation) :
    (indices.foldl (fun (b : Booking) index => b.reserveCore index.toNat)
      ⟨chip, alloc⟩).chip.openUnits + coresMet c indices * t = c * t := by
  have states := Booking.states_foldl_reserveCore indices (b := ⟨chip, alloc⟩) idle.states
  have sum := sum_reservedStates c t ((indices.map Int.toNat).reverse ++ [])
  rw [← states, map_map] at sum
  have met : ∀ position : Nat, position ∈ (indices.map Int.toNat).reverse ++ [] ↔
      (position : Int) ∈ indices := by
    intro position
    rw [append_nil, mem_reverse, mem_map]
    constructor
    · rintro ⟨index, mem, rfl⟩
      rwa [Int.toNat_of_nonneg (inside index mem).1]
    · intro mem
      exact ⟨position, mem, Int.toNat_natCast position⟩
  simp only [met] at sum
  exact sum

variable (taskAlloc : Allocation) {slotsPer slotsRemainder : Int}

theorem spreadPlace_of_fits (fits : slotsPer + slotsRemainder ≤ c * t) :
    (chip.spreadPlace F taskAlloc slotsPer slotsRemainder).taskPlaced = true ∧
      (chip.spreadPlace F taskAlloc slotsPer slotsRemainder).chip.openUnits =
        (chip.spreadSlots F taskAlloc slotsPer (decide (0 < slotsRemainder))).chip.openUnits := by
  unfold spreadPlace
  rw [if_pos ⟨idle.isCompletelyFree, idle.totalThreads ▸ fits⟩]
  exact ⟨rfl, rfl⟩

theorem openUnits_spreadSlots_few (few : spreadWanted slotsPer slotsRemainder ≤ c)
    (inside : ∀ index ∈ spreadIndices F c (spreadWanted slotsPer slotsRemainder),
      0 ≤ index ∧ index < c) :
    (chip.spreadSlots F taskAlloc slotsPer (decide (0 < slotsRemainder))).chip.openUnits +
      coresMet c (spreadIndices F c (spreadWanted slotsPer slotsRemainder)) * t = c * t := by
  unfold spreadSlots
  simp only [ite_decide_eq_spreadWanted, idle.totalCores, spreadCores_eq_foldl]
  rw [if_pos few]
  exact idle.openUnits_foldl_reserveCore inside _

theorem openUnits_spreadSlots_many {slotsPer : Nat}
    (many : (c : Int) < spreadWanted slotsPer slotsRemainder)
    (fits : spreadWanted slotsPer slotsRemainder ≤ c * t) :
    (Booking.spreadOut ⟨chip, { jobid := taskAlloc.jobid, placeType := taskAlloc.placeType }⟩
        slotsPer (decide (0 < slotsRemainder))).remainder ≤ 0 ∧
      (chip.spreadSlots F taskAlloc slotsPer (decide (0 < slotsRemainder))).chip.openUnits +
        (if (c : Int) ∣ slotsPer then (slotsPer : Int)
          else spreadWanted slotsPer slotsRemainder) = c * t := by
  have wanted : spreadWanted slotsPer slotsRemainder =
      (slotsPer + (decide (0 < slotsRemainder)).toNat : Nat) := by
    unfold spreadWanted
    by_cases more : 0 < slotsRemainder <;> simp [more]
  have one := Bool.toNat_le (decide (0 < slotsRemainder))
  have some : 0 < c := by
    refine Nat.pos_of_ne_zero fun none => ?_
    rw [none, Nat.cast_zero, Int.zero_mul] at fits
    omega
  obtain ⟨ended, left⟩ := Booking.openUnits_spreadOut (decide (0 < slotsRemainder))
    (b := ⟨chip, { jobid := taskAlloc.jobid, placeType := taskAlloc.placeType }⟩)
    idle.totalCores (idle.levels _) (by omega : c ≤ slotsPer) some
    (by rw [wanted] at fits; exact_mod_cast fits)
  refine ⟨ended, ?_⟩
  unfold spreadSlots
  simp only [ite_decide_eq_spreadWanted, idle.totalCores]
  rw [if_neg (not_le.mpr many), wanted]
  simp only [Int.natCast_dvd_natCast]
  exact_mod_cast left

theorem not_spreadsExactly (blocked : ¬ slotsPer + slotsRemainder ≤ c * t) :
    ¬ chip.SpreadsExactly F taskAlloc slotsPer slotsRemainder := by
  intro exactly
  have placed := exactly.taskPlaced
  unfold spreadPlace at placed
  rw [if_neg fun enter => blocked (idle.totalThreads ▸ enter.2)] at placed
  exact Bool.false_ne_true placed

theorem spreadsExactly_iff_few (guard : slotsPer + slotsRemainder ≤ c * t)
    (few : spreadWanted slotsPer slotsRemainder ≤ c) :
    chip.SpreadsExactly F taskAlloc slotsPer slotsRemainder ↔
      (∀ index ∈ spreadIndices F c (spreadWanted slotsPer slotsRemainder),
        0 ≤ index ∧ index < c) ∧
      coresMet c (spreadIndices F c (spreadWanted slotsPer slotsRemainder)) * t =
        spreadWanted slotsPer slotsRemainder := by
  obtain ⟨placed, same⟩ := idle.spreadPlace_of_fits (F := F) taskAlloc guard
  constructor
  · intro exactly
    have inside := exactly.inside (idle.totalCores ▸ few)
    rw [idle.totalCores, idle.cores] at inside
    have left := idle.openUnits_spreadSlots_few (F := F) taskAlloc few inside
    have reserved := exactly.reserved
    rw [same, idle.openUnits, ← left] at reserved
    refine ⟨inside, ?_⟩
    push_cast at reserved
    omega
  · rintro ⟨inside, count⟩
    have left := idle.openUnits_spreadSlots_few (F := F) taskAlloc few inside
    refine ⟨placed, ?_, ?_, ?_⟩
    · rw [same, idle.openUnits, ← left]
      push_cast
      rw [count]
    · rw [idle.totalCores, idle.cores]
      exact fun _ => inside
    · rw [idle.totalCores]
      exact fun many => absurd few (not_le.mpr many)

theorem spreadsExactly_iff_many {slotsPer : Nat} (guard : slotsPer + slotsRemainder ≤ c * t)
    (many : ¬ spreadWanted slotsPer slotsRemainder ≤ c)
    (fits : spreadWanted slotsPer slotsRemainder ≤ c * t) :
    chip.SpreadsExactly F taskAlloc slotsPer slotsRemainder ↔
      ¬ (0 < slotsRemainder ∧ (c : Int) ∣ slotsPer) := by
  obtain ⟨placed, same⟩ := idle.spreadPlace_of_fits (F := F) taskAlloc guard
  obtain ⟨ended, left⟩ := idle.openUnits_spreadSlots_many (F := F) taskAlloc (not_le.mp many) fits
  constructor
  · rintro exactly ⟨more, divides⟩
    have reserved := exactly.reserved
    rw [same, idle.openUnits, Nat.cast_mul, ← left, if_pos divides, spreadWanted,
      if_pos more] at reserved
    omega
  · intro kept
    refine ⟨placed, ?_, ?_, fun _ => ended⟩
    · rw [same, idle.openUnits, Nat.cast_mul, ← left]
      split
      · next divides => rw [spreadWanted, if_neg fun more => kept ⟨more, divides⟩]
      · rfl
    · rw [idle.totalCores]
      exact fun few => absurd few many

end Chip.Idle

theorem ChipLayout.idle_idleChip (layout : ChipLayout) {t : Nat}
    (even : ∀ core ∈ layout.cores, core.indices.length = t) :
    layout.idleChip.Idle layout.cores.length t where
  isCompletelyFree := rfl
  totalCores := rfl
  totalThreads := by
    change (layout.indices.length : Int) = _
    rw [indices, length_flatMap, map_eq_map_iff.2 even, map_const', sum_replicate, nsmul_eq_mul,
      Nat.cast_id, Nat.cast_mul]
  cores := length_map _
  free := by simp [idleChip, CoreLayout.core]
  threads := by simpa [idleChip, CoreLayout.core] using even
  idle := by simp [idleChip, CoreLayout.core]

/-- Two cores of two units. -/
def pairedCores : ChipLayout where
  cores := [⟨0, [0, 1], by decide⟩, ⟨2, [2, 3], by decide⟩]
  devices := []
  memory := 4
  distinct := by decide
  distinctDevices := List.nodup_nil

/-- Three cores of one unit. -/
def singleCores : ChipLayout where
  cores := [⟨0, [0], by decide⟩, ⟨1, [1], by decide⟩, ⟨2, [2], by decide⟩]
  devices := []
  memory := 4
  distinct := by decide
  distinctDevices := List.nodup_nil

end Torque.Numa
