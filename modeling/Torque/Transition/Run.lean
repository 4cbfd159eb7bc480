import Mathlib.Data.List.MinMax

/-!
# Runs of event-driven systems

A system is a total step function on states and events; its runs are left
folds of that function.  A condition on single steps is lifted to runs by
`Admissible`, which asks that each event be allowed in the very state it
meets.

Two induction rules follow: an invariant preserved by allowed steps holds
after every admissible run, and an invariant that also looks at the events
processed so far relates the reached state to the history that led to it.
-/

namespace Torque.Transition

universe u v

variable {σ : Type u} {ε : Type v} {step : σ → ε → σ} {start : σ} {allowed : σ → ε → Prop}
  {events : List ε} {κ : Type*}

section

variable (step : σ → ε → σ) (start : σ)

/-- The state reached by processing the events in order. -/
def run (events : List ε) : σ :=
  events.foldl step start

@[simp]
theorem run_nil : run step start [] = start :=
  rfl

@[simp]
theorem run_cons (event : ε) (events : List ε) :
    run step start (event :: events) = run step (step start event) events :=
  rfl

theorem run_append (before after : List ε) :
    run step start (before ++ after) = run step (run step start before) after :=
  List.foldl_append

end

variable (Invariant : σ → Prop)

/-- An invariant of every step holds after every run. -/
theorem run_invariant (initial : Invariant start)
    (preserved : ∀ state event, Invariant state → Invariant (step state event)) (events : List ε) :
    Invariant (run step start events) := by
  induction events generalizing start with
  | nil => exact initial
  | cons event events ih => exact ih (preserved start event initial)

/-- Every event of the run is allowed in the state in which it occurs. -/
def Admissible (step : σ → ε → σ) (allowed : σ → ε → Prop) : σ → List ε → Prop
  | _, [] => True
  | state, event :: events =>
    allowed state event ∧ Admissible step allowed (step state event) events

section

variable (step : σ → ε → σ) (allowed : σ → ε → Prop) (start : σ)

@[simp]
theorem admissible_nil : Admissible step allowed start [] :=
  trivial

@[simp]
theorem admissible_cons (event : ε) (events : List ε) :
    Admissible step allowed start (event :: events) ↔
      allowed start event ∧ Admissible step allowed (step start event) events :=
  Iff.rfl

end

instance (step : σ → ε → σ) (allowed : σ → ε → Prop)
    [decidable : ∀ state event, Decidable (allowed state event)] :
    ∀ start events, Decidable (Admissible step allowed start events)
  | _, [] => .isTrue trivial
  | start, event :: events =>
    have := instDecidableAdmissible step allowed (step start event) events
    inferInstanceAs (Decidable (_ ∧ _))

/-- An invariant relating the state to the processed events is established at
the start and kept by allowed steps, hence relates every reached state to the
history of its run. -/
theorem history_invariant (Invariant : List ε → σ → Prop) (initial : Invariant [] start)
    (preserved : ∀ history state event, Invariant history state → allowed state event →
      Invariant (history ++ [event]) (step state event))
    (admissible : Admissible step allowed start events) :
    Invariant events (run step start events) := by
  have generalized : ∀ history state, Invariant history state →
      Admissible step allowed state events →
      Invariant (history ++ events) (run step state events) := by
    clear initial admissible
    induction events with
    | nil =>
      intro history state holds _
      simpa using holds
    | cons event events ih =>
      intro history state holds admissible
      have next := ih (history ++ [event]) (step state event)
        (preserved history state event holds admissible.1) admissible.2
      simpa using next
  simpa using generalized [] start initial admissible

/-- An invariant of allowed steps holds after every admissible run. -/
theorem invariant (initial : Invariant start)
    (preserved : ∀ state event, Invariant state → allowed state event →
      Invariant (step state event)) (admissible : Admissible step allowed start events) :
    Invariant (run step start events) :=
  history_invariant (fun _ => Invariant) initial
    (fun _ state event holds ok => preserved state event holds ok) admissible

/-! ## The newest entry of a history -/

/-- The entry of highest rank, the earliest one among equals. -/
def newestBy {κ : Type*} [LinearOrder κ] (rank : ε → κ) (entries : List ε) : Option ε :=
  entries.argmax rank

variable [LinearOrder κ] (rank : ε → κ)

@[simp]
theorem newestBy_nil : newestBy rank [] = none :=
  rfl

theorem newestBy_concat (entries : List ε) (entry : ε) :
    newestBy rank (entries ++ [entry]) =
      match newestBy rank entries with
      | none => some entry
      | some newest => if rank newest < rank entry then some entry else some newest := by
  unfold newestBy
  rw [List.argmax_concat]
  cases List.argmax rank entries <;> rfl

end Torque.Transition
