/-!
# Systems that answer, and what they refine

A system answers every command and goes to its next state.  What it is for is
given by a relation that says which answers are allowed, and what they leave
behind.  A simulation between the two lifts from single commands to whole runs:
the answers of a run are a behaviour of the relation.
-/

namespace Torque.Transition

universe u v w x

variable {σ : Type u} {τ : Type v} {ε : Type w} {α : Type x}

/-- The answers to the commands, and the state that is reached. -/
def execute (exec : σ → ε → α × σ) : σ → List ε → List α × σ
  | state, [] => ([], state)
  | state, command :: commands =>
    let (answer, next) := exec state command
    let (answers, last) := execute exec next commands
    (answer :: answers, last)

/-- The answers to the commands are allowed, one after the other. -/
inductive Behaviour (Step : τ → ε → α → τ → Prop) : τ → List ε → List α → τ → Prop
  | nil (state : τ) : Behaviour Step state [] [] state
  | cons {state next last : τ} {command : ε} {answer : α} {commands : List ε}
      {answers : List α} (step : Step state command answer next)
      (rest : Behaviour Step next commands answers last) :
      Behaviour Step state (command :: commands) (answer :: answers) last

/-- If every command is simulated, so is every run. -/
theorem behaviour_of_simulation {exec : σ → ε → α × σ} {Step : τ → ε → α → τ → Prop}
    {Related : σ → τ → Prop}
    (simulates : ∀ state model, Related state model → ∀ command, ∃ next,
      Step model command (exec state command).1 next ∧ Related (exec state command).2 next)
    {state : σ} {model : τ} (related : Related state model) (commands : List ε) :
    ∃ last, Behaviour Step model commands (execute exec state commands).1 last ∧
      Related (execute exec state commands).2 last := by
  induction commands generalizing state model with
  | nil => exact ⟨model, .nil model, related⟩
  | cons command commands ih =>
    obtain ⟨next, step, onward⟩ := simulates state model related command
    obtain ⟨last, rest, reached⟩ := ih onward
    exact ⟨last, .cons step rest, reached⟩

end Torque.Transition
