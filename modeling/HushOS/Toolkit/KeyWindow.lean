import HushOS.Toolkit.Refusal

namespace Toolkit

open List

/-!
# Keys in force along a log

A log's entries stand at positions 1, 2, 3, ...  Its key is replaced from time
to time, and each replacement is tied to the position of the last entry under
the key it replaces.  The key in force at a position is then known from the
ties alone: one more than the replacements tied before it.
-/

/-- The version of the key in force at a position. -/
def keyAt (ties : List Nat) (position : Nat) : Nat :=
  1 + ties.countP fun tie => tie < position

@[simp] theorem keyAt_nil (position : Nat) :
    keyAt [] position = 1 :=
  rfl

theorem keyAt_concat
    (ties : List Nat)
    (tie position : Nat) :
    keyAt (ties ++ [tie]) position =
      keyAt ties position + if tie < position then 1 else 0 := by
  simp only [keyAt, countP_append, countP_singleton,
    decide_eq_true_eq]
  omega

theorem keyAt_concat_of_le
    (ties : List Nat)
    {tie position : Nat}
    (late : position ≤ tie) :
    keyAt (ties ++ [tie]) position = keyAt ties position := by
  simp [keyAt_concat, Nat.not_lt.mpr late]

theorem keyAt_of_forall_lt
    {ties : List Nat}
    {position : Nat}
    (before : ∀ tie ∈ ties, tie < position) :
    keyAt ties position = ties.length + 1 := by
  have all : ties.countP (fun tie => tie < position) = ties.length := by
    rw [countP_eq_length]
    simpa using before
  rw [keyAt, all, Nat.add_comm]

theorem keyAt_mono
    (ties : List Nat)
    {first second : Nat}
    (ordered : first ≤ second) :
    keyAt ties first ≤ keyAt ties second := by
  refine Nat.add_le_add_left (countP_mono_left ?_) 1
  intro tie _ before
  simp only [decide_eq_true_eq] at before ⊢
  omega

/-- The key in force rises across a tie. -/
theorem keyAt_lt_of_mem
    {ties : List Nat}
    {tie first second : Nat}
    (member : tie ∈ ties)
    (notBefore : first ≤ tie)
    (after : tie < second) :
    keyAt ties first < keyAt ties second := by
  obtain ⟨earlier, later, rfl⟩ := append_of_mem member
  have earlierMono :=
    keyAt_mono earlier (show first ≤ second by omega)
  have laterMono :=
    keyAt_mono later (show first ≤ second by omega)
  have notCounted : ¬ tie < first := by
    omega
  simp only [keyAt] at earlierMono laterMono ⊢
  simp only [countP_append, countP_cons, notCounted, after,
    decide_true, decide_false, Bool.false_eq_true, ↓reduceIte]
  omega

end Toolkit
