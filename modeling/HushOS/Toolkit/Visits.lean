import Mathlib.Data.List.Basic
import Mathlib.Data.List.Count

namespace Toolkit

namespace Visits

/-!
# Walks that mark where they were

A walk over finitely many places ends when each step marks one not marked yet:
the unmarked places only become fewer.
-/

variable {α : Type*} [DecidableEq α]

/-- How many of the places are not visited. -/
def unvisited (places visited : List α) : Nat :=
  places.countP (· ∉ visited)

theorem unvisited_le (places visited : List α) (place : α) :
    unvisited places (visited ++ [place]) ≤ unvisited places visited := by
  refine List.countP_mono_left fun other _ apart => ?_
  simp only [List.mem_append, not_or, decide_eq_true_eq] at apart ⊢
  exact apart.1

theorem unvisited_lt
    {places visited : List α}
    {place : α}
    (inside : place ∈ places)
    (new : place ∉ visited) :
    unvisited places (visited ++ [place]) < unvisited places visited := by
  obtain ⟨before, after, rfl⟩ := List.append_of_mem inside
  have left := unvisited_le before visited place
  have right := unvisited_le after visited place
  have counted : ∀ marked : List α,
      unvisited (before ++ place :: after) marked =
        unvisited before marked + (unvisited after marked +
          if place ∉ marked then 1 else 0) := by
    intro marked
    simp only [unvisited, List.countP_append, List.countP_cons, decide_eq_true_eq]
  rw [counted, counted, if_neg (by simp), if_pos new]
  omega

end Visits

end Toolkit
