import Mathlib.Data.List.Basic

/-!
# Computations with a trace

A traced computation returns a value and the list of what it recorded on the
way.  The value never depends on the trace, so that reading a function of a
program as a traced one changes nothing about what it computes; it only allows
one to speak about the arguments with which the function made a certain call.

`Under` is the partial-correctness judgement that goes with it: a postcondition
that has to hold if everything recorded is acceptable.
-/

namespace Torque.Transition

universe u

/-- A value, and what was recorded while it was computed. -/
structure Traced (ε α : Type u) where
  value : α
  trace : List ε

namespace Traced

variable {ε α β : Type u}

instance : Monad (Traced ε) where
  pure a := ⟨a, []⟩
  bind x f :=
    match x with
    | ⟨a, before⟩ =>
      match f a with
      | ⟨b, after⟩ => ⟨b, before ++ after⟩

/-- Record one entry. -/
def record (entry : ε) : Traced ε PUnit :=
  ⟨⟨⟩, [entry]⟩

/-- `post` holds of the value if every recorded entry is acceptable. -/
def Under (ok : ε → Prop) (x : Traced ε α) (post : α → Prop) : Prop :=
  (∀ entry ∈ x.trace, ok entry) → post x.value

variable {ok : ε → Prop} {post post' : α → Prop} {x : Traced ε α}

theorem Under.pure {a : α} (holds : post a) : Under ok (pure a) post := by
  intro _
  exact holds

theorem Under.bind {f : α → Traced ε β} {final : β → Prop} (first : Under ok x post)
    (second : ∀ a, post a → Under ok (f a) final) : Under ok (x >>= f) final := by
  intro acceptable
  have split := acceptable
  have before := first fun entry mem => split entry (List.mem_append_left _ mem)
  exact second x.value before fun entry mem => split entry (List.mem_append_right _ mem)

theorem Under.mono (holds : Under ok x post) (weaker : ∀ a, post a → post' a) :
    Under ok x post' := by
  intro acceptable
  exact weaker _ (holds acceptable)

/-- What is acceptable may be asked for more strictly. -/
theorem Under.strengthen {ok' : ε → Prop} (holds : Under ok x post)
    (stricter : ∀ entry, ok' entry → ok entry) : Under ok' x post := by
  intro acceptable
  exact holds fun entry mem => stricter entry (acceptable entry mem)

theorem Under.record {entry : ε} {final : PUnit → Prop} (holds : ok entry → final ⟨⟩) :
    Under ok (record entry) final := by
  intro acceptable
  exact holds (acceptable entry (List.mem_singleton_self entry))

end Traced

end Torque.Transition
