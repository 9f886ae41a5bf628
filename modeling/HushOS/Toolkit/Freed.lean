namespace Toolkit

open List

/-!
# What is freed step by step

Some items wait, each for items above it.  One that waits is freed once all
above it are: the freed items are the least set closed under that rule, and any
run that frees one at a time, until it can free no more, ends with them.
-/

/-- An item is freed when it waits and all above it are freed. -/
inductive Freed {κ : Type u} (waits : κ → Prop) (above : κ → List κ) : κ → Prop
  | free
      (item : κ)
      (waiting : waits item)
      (ahead : ∀ other ∈ above item, Freed waits above other) :
      Freed waits above item

namespace Freed

variable {κ : Type u} {waits : κ → Prop} {above : κ → List κ}

theorem waited {item : κ} (freed : Freed waits above item) : waits item :=
  match freed with
  | .free _ waiting _ => waiting

/-- Items freed after all above them. -/
inductive InTurn (waits : κ → Prop) (above : κ → List κ) : List κ → Prop
  | none : InTurn waits above []
  | next {before : List κ} {item : κ} :
      InTurn waits above before →
      waits item →
      (∀ other ∈ above item, other ∈ before) →
      InTurn waits above (before ++ [item])

theorem of_inTurn
    {items : List κ}
    (turns : InTurn waits above items) :
    ∀ item ∈ items, Freed waits above item := by
  induction turns with
  | none => intro item member; cases member
  | next _ waiting ahead inductionHypothesis =>
    intro item member
    rcases mem_append.mp member with earlier | last
    · exact inductionHypothesis item earlier
    · rw [mem_singleton.mp last]
      exact .free _ waiting fun other on =>
        inductionHypothesis other (ahead other on)

/-- Whatever an item waits for comes before it. -/
theorem InTurn.before
    {items first rest : List κ}
    {item : κ}
    (turns : InTurn waits above items)
    (splits : items = first ++ item :: rest) :
    ∀ other ∈ above item, other ∈ first := by
  induction turns generalizing rest with
  | none => simp at splits
  | next earlier _ ahead inductionHypothesis =>
    rcases eq_nil_or_concat rest with rfl | ⟨others, last, rfl⟩
    · obtain ⟨rfl, same⟩ := append_inj' splits rfl
      obtain rfl := head_eq_of_cons_eq same
      exact ahead
    · have shape : first ++ item :: (others ++ [last]) =
          (first ++ item :: others) ++ [last] := by
        simp
      rw [concat_eq_append, shape] at splits
      exact inductionHypothesis (append_inj' splits rfl).1

theorem mem_of_settled
    {there : κ → Prop}
    (settled : ∀ item, waits item → (∀ other ∈ above item, there other) →
      there item)
    {item : κ}
    (freed : Freed waits above item) :
    there item := by
  induction freed with
  | free item waiting _ inductionHypothesis =>
    exact settled item waiting inductionHypothesis

theorem iff_of_settled
    {items : List κ}
    (turns : InTurn waits above items)
    (settled : ∀ item, waits item → (∀ other ∈ above item, other ∈ items) →
      item ∈ items)
    {item : κ} :
    item ∈ items ↔ Freed waits above item :=
  ⟨of_inTurn turns item, mem_of_settled settled⟩

end Freed

end Toolkit
