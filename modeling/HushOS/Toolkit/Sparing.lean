import HushOS.Toolkit.Refusal

namespace Toolkit

/-!
# Refusals that never come

A computation spares a refusal where it never ends with it, whatever it ends
with.  Each way of putting checks together spares what its parts spare.
-/

universe u v w

variable {ε : Type u} {α β σ : Type v}

/-- A computation never refused for this. -/
def Spares (refusal : ε) (computation : Except ε α) : Prop :=
  computation ≠ .error refusal

namespace Spares

variable {refusal : ε}

theorem ok (value : α) : Spares refusal (.ok value : Except ε α) :=
  fun same => nomatch same

theorem error
    {other : ε}
    (differs : other ≠ refusal) :
    Spares refusal (.error other : Except ε α) :=
  fun same => differs (Except.error.inj same)

theorem refuseIf
    {bad : Prop} [Decidable bad]
    {reason : ε}
    (differs : bad → reason ≠ refusal) :
    Spares refusal (Toolkit.refuseIf bad reason) := by
  intro same
  obtain ⟨holds, rfl⟩ := refuseIf_eq_error.mp same
  exact differs holds rfl

theorem bind
    {first : Except ε α}
    {next : α → Except ε β}
    (spared : Spares refusal first)
    (later : ∀ value, first = .ok value → Spares refusal (next value)) :
    Spares refusal (first >>= next) := by
  intro same
  rcases bind_eq_error.mp same with early | ⟨value, accepted, late⟩
  · exact spared early
  · exact later value accepted late

theorem forEach
    {check : α → Except ε Unit}
    (each : ∀ item, Spares refusal (check item))
    (items : List α) :
    Spares refusal (Toolkit.forEach check items) := by
  induction items with
  | nil =>
    exact ok ()
  | cons item rest inductionHypothesis =>
    exact (each item).bind fun _ _ => inductionHypothesis

theorem foldEach
    {step : σ → α → Except ε σ}
    (each : ∀ state item, Spares refusal (step state item))
    (state : σ)
    (items : List α) :
    Spares refusal (Toolkit.foldEach step state items) := by
  induction items generalizing state with
  | nil =>
    exact ok state
  | cons item rest inductionHypothesis =>
    exact (each state item).bind fun next _ => inductionHypothesis next

end Spares

end Toolkit
