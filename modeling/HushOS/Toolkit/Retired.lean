import Mathlib.Data.List.Count
import Mathlib.Data.List.Nodup
import Mathlib.Order.MinMax

namespace Toolkit

open List

/-!
# A current item and those it replaced

A list of the items that were current once and are not now.  An item is kept
when it is not the current one and not kept already, and what becomes current
is left out, so the list has no repeats but those it started with.
-/

namespace Retired

variable {α : Type} [DecidableEq α]

/-- The items kept but one, which is current. -/
def leaveOut (current : α) (kept : List α) : List α :=
  kept.filter fun item => item ≠ current

/-- The items kept with one more, unless it is current or kept already. -/
def keepOnce (current : α) (kept : List α) (item : α) : List α :=
  if item ≠ current ∧ item ∉ kept then kept ++ [item] else kept

/-- The items kept with several more, each in its turn. -/
def keepEach (current : α) (kept items : List α) : List α :=
  items.foldl (keepOnce current) kept

section Facts

variable {current item other : α} {kept items : List α}

@[simp] theorem mem_leaveOut :
    other ∈ leaveOut current kept ↔ other ∈ kept ∧ other ≠ current := by
  simp [leaveOut]

theorem count_leaveOut_le :
    (leaveOut current kept).count other ≤ kept.count other :=
  List.Sublist.count_le other filter_sublist

@[simp] theorem mem_keepOnce :
    other ∈ keepOnce current kept item ↔
      other ∈ kept ∨ other = item ∧ other ≠ current := by
  unfold keepOnce
  split
  · next fresh =>
      simp only [mem_append, mem_singleton]
      constructor
      · rintro (held | rfl)
        · exact .inl held
        · exact .inr ⟨rfl, fresh.1⟩
      · rintro (held | ⟨isItem, _⟩)
        · exact .inl held
        · exact .inr isItem
  · next known =>
      constructor
      · exact .inl
      · rintro (held | ⟨rfl, retired⟩)
        · exact held
        · exact by_contra fun absent => known ⟨retired, absent⟩

theorem count_keepOnce_le :
    (keepOnce current kept item).count other ≤ max 1 (kept.count other) := by
  unfold keepOnce
  split
  · next fresh =>
      rw [count_append, count_singleton]
      by_cases same : item = other
      · subst same
        simp [count_eq_zero_of_not_mem fresh.2]
      · simp [same]
  · exact le_max_right ..

@[simp] theorem mem_keepEach :
    other ∈ keepEach current kept items ↔
      other ∈ kept ∨ other ∈ items ∧ other ≠ current := by
  induction items generalizing kept with
  | nil =>
    simp [keepEach]
  | cons first rest inductionHypothesis =>
    have further : other ∈ keepEach current kept (first :: rest) ↔
        other ∈ keepOnce current kept first ∨
          other ∈ rest ∧ other ≠ current :=
      inductionHypothesis
    rw [further, mem_keepOnce, mem_cons, or_and_right, or_assoc]

theorem count_keepEach_le :
    (keepEach current kept items).count other ≤ max 1 (kept.count other) := by
  induction items generalizing kept with
  | nil =>
    exact le_max_right ..
  | cons first rest inductionHypothesis =>
    calc (keepEach current (keepOnce current kept first) rest).count other
        ≤ max 1 ((keepOnce current kept first).count other) :=
          inductionHypothesis
      _ ≤ max 1 (max 1 (kept.count other)) :=
          max_le_max le_rfl count_keepOnce_le
      _ = max 1 (kept.count other) := by
          rw [← max_assoc, max_self]

theorem nodup_keepOnce (once : kept.Nodup) :
    (keepOnce current kept item).Nodup := by
  refine nodup_iff_count_le_one.mpr fun other => ?_
  have bound := nodup_iff_count_le_one.mp once other
  exact count_keepOnce_le.trans (max_le le_rfl bound)

theorem nodup_leaveOut (once : kept.Nodup) :
    (leaveOut current kept).Nodup :=
  once.filter _

end Facts

end Retired

end Toolkit
