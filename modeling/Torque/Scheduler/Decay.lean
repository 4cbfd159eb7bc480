import Torque.Transition.Run

/-!
# The decay of the fair-share tree

`init_scheduling_cycle` halves the usage in the tree once for every half life since the last
decay.  It counts them with a strict comparison but sets the time of the decay by a remainder: a
half life is lost if a cycle comes exactly several half lives later.
-/

namespace Torque.Scheduler

open Torque.Transition

/-- `last_decay`, `cstat.current_time`, and the number of calls of `decay_fairshare_tree`. -/
structure Decay where
  lastDecay : Int
  currentTime : Int
  decays : Nat

/-- The decays in the loop of `init_scheduling_cycle` from `t` on, which has a bound on its
rounds. -/
def decayLoop (halfLife lastDecay : Int) : Nat → Int → Nat
  | 0, _ => 0
  | fuel + 1, t =>
    if t - lastDecay > halfLife then decayLoop halfLife lastDecay fuel (t - halfLife) + 1 else 0

/-- What `init_scheduling_cycle` does with fair share, in a cycle at `currentTime`. -/
def Decay.cycle (halfLife : Int) (state : Decay) (currentTime : Int) : Decay :=
  let elapsed := currentTime - state.lastDecay
  let decayed := decayLoop halfLife state.lastDecay elapsed.toNat currentTime
  { lastDecay := if decayed = 0 then state.lastDecay else currentTime - elapsed.tmod halfLife
    currentTime := currentTime
    decays := state.decays + decayed }

/-- The time goes on, and is not exactly two or more half lives behind the last decay. -/
def Decay.Meets (halfLife : Int) (state : Decay) (t : Int) : Prop :=
  state.currentTime ≤ t ∧
    ¬ (halfLife ∣ t - state.lastDecay ∧ 2 * halfLife ≤ t - state.lastDecay)
deriving Decidable

/-- The half lives up to the last decay are counted, and at most one has passed since. -/
structure Decay.UpToDate (halfLife start : Int) (state : Decay) : Prop where
  counted : state.lastDecay = start + state.decays * halfLife
  past : state.lastDecay ≤ state.currentTime
  recent : state.currentTime - state.lastDecay ≤ halfLife

variable {halfLife start lastDecay t : Int} {state : Decay}

/-- The bound on the rounds is sufficient: at most one half life is left, and something of it. -/
theorem decayLoop_spec (positive : 0 < halfLife) {fuel : Nat} (enough : t - lastDecay ≤ fuel) :
    t - lastDecay - decayLoop halfLife lastDecay fuel t * halfLife ≤ halfLife ∧
      (decayLoop halfLife lastDecay fuel t ≠ 0 →
        0 < t - lastDecay - decayLoop halfLife lastDecay fuel t * halfLife) := by
  induction fuel generalizing t with
  | zero => exact ⟨by rw [decayLoop]; omega, fun some_ => absurd rfl some_⟩
  | succ fuel ih =>
    rw [decayLoop]
    split
    · obtain ⟨most, left_⟩ := ih (t := t - halfLife) (by omega)
      rw [Int.natCast_add, Int.natCast_one, Int.add_mul, Int.one_mul]
      refine ⟨by omega, fun _ => ?_⟩
      by_cases none_ : decayLoop halfLife lastDecay fuel (t - halfLife) = 0
      · rw [none_]
        omega
      · have left_ := left_ none_
        omega
    · exact ⟨by omega, fun some_ => absurd rfl some_⟩

theorem Decay.UpToDate.cycle (upToDate : state.UpToDate halfLife start) (positive : 0 < halfLife)
    (meets : state.Meets halfLife t) : (state.cycle halfLife t).UpToDate halfLife start := by
  obtain ⟨counted, past, -⟩ := upToDate
  obtain ⟨later, uneven⟩ := meets
  obtain ⟨most, left_⟩ := decayLoop_spec positive (Int.self_le_toNat (t - state.lastDecay))
  dsimp only [Decay.cycle]
  generalize decayLoop _ _ _ _ = decayed at *
  cases decayed with
  | zero => exact ⟨counted, past.trans later, by simpa using most⟩
  | succ decayed =>
    have left_ := left_ (Nat.succ_ne_zero _)
    rw [Int.natCast_add, Int.add_mul] at most left_
    have least : 0 ≤ decayed * halfLife := Int.mul_nonneg (Int.natCast_nonneg _) positive.le
    -- a whole half life is left only at a time that is excluded
    have less : t - state.lastDecay - (decayed * halfLife + halfLife) < halfLife := by
      refine lt_of_le_of_ne (by omega) fun whole => uneven ⟨⟨decayed + 2, ?_⟩, by omega⟩
      rw [Int.mul_comm, Int.add_mul]
      omega
    have remainder := Int.sub_mul_emod_self_right (t - state.lastDecay) (decayed + 1) halfLife
    rw [Int.add_mul, Int.one_mul, Int.emod_eq_of_lt (by omega) less] at remainder
    rw [if_neg (Nat.succ_ne_zero _), Int.tmod_eq_emod_of_nonneg (by omega), ← remainder]
    refine ⟨?_, by dsimp only; omega, by dsimp only; omega⟩
    push_cast
    rw [counted, Int.add_mul, Int.add_mul]
    omega

/-- If no cycle comes exactly two or more half lives behind the last decay, every half life that
ended before the present cycle is counted, and none that has not ended. -/
theorem half_lives_counted (positive : 0 < halfLife) (start : Int) {times : List Int}
    (meets : Admissible (Decay.cycle halfLife) (Decay.Meets halfLife) ⟨start, start, 0⟩ times) :
    let state := run (Decay.cycle halfLife) ⟨start, start, 0⟩ times
    (state.currentTime - 1 - start) / halfLife ≤ state.decays ∧
      state.decays ≤ (state.currentTime - start) / halfLife := by
  have upToDate : (run (Decay.cycle halfLife) ⟨start, start, 0⟩ times).UpToDate halfLife start :=
    invariant _ ⟨by simp, le_rfl, by simpa using positive.le⟩
      (fun _ _ upToDate meets => upToDate.cycle positive meets) meets
  obtain ⟨counted, past, recent⟩ := upToDate
  rw [counted] at past recent
  refine ⟨Int.le_of_lt_add_one (Int.ediv_lt_of_lt_mul positive ?_),
    Int.le_ediv_of_mul_le positive (by omega)⟩
  rw [Int.add_mul]
  omega

theorem half_lives_counted_three :
    Admissible (Decay.cycle 10) (Decay.Meets 10) ⟨0, 0, 0⟩ [10, 11, 35] ∧
      3 ≤ (run (Decay.cycle 10) ⟨0, 0, 0⟩ [10, 11, 35]).decays :=
  have meets : Admissible (Decay.cycle 10) (Decay.Meets 10) ⟨0, 0, 0⟩ [10, 11, 35] := by decide
  ⟨meets, Int.ofNat_le.1 (half_lives_counted (by decide) 0 meets).1⟩

/-- Two of four half lives are lost. -/
theorem half_lives_lost : (run (Decay.cycle 10) ⟨0, 0, 0⟩ [20, 40]).decays + 2 = (40 - 0) / 10 := by
  decide

end Torque.Scheduler
