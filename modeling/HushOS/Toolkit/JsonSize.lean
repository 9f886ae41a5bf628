import HushOS.Toolkit.JsonRoundTrip

namespace Toolkit

open List

namespace Json

/-!
# How long a JSON text is

Bounds on the characters a plain value is written with, part by part.
-/

theorem length_compact_text
    {value : String}
    (plain : ∀ char ∈ value.toList, PlainChar char) :
    (compact (.text value)).length = value.toList.length + 2 := by
  simp [compact, flatMap_escape plain]

theorem length_compact_number_le
    {value : Nat}
    (safe : value ≤ maxSafe) :
    (compact (.number value)).length ≤ 16 := by
  rw [compact, Nat.length_toDigits_le_iff (by decide) (by decide)]
  exact lt_of_le_of_lt safe (by decide)

theorem length_compactItems_le (items : List Plain) :
    (compactItems items).length ≤
      (items.map fun item => (compact item).length + 1).sum := by
  induction items with
  | nil =>
    simp [compactItems]
  | cons item rest later =>
    cases rest with
    | nil =>
      simp [compactItems]
    | cons next rest =>
      simp only [compactItems, length_append, length_cons,
        map_cons, sum_cons] at later ⊢
      omega

theorem length_compact_list_le
    {items : List Plain}
    {bound : Nat}
    (each : ∀ item ∈ items, (compact item).length ≤ bound) :
    (compact (.list items)).length ≤ 2 + items.length * (bound + 1) := by
  have parts := length_compactItems_le items
  have sum :
      (items.map fun item => (compact item).length + 1).sum ≤
        items.length * (bound + 1) := by
    have bounded := sum_le_card_nsmul
      (items.map fun item => (compact item).length + 1) (bound + 1)
      (by
        intro count member
        obtain ⟨item, inItems, rfl⟩ := mem_map.mp member
        exact Nat.succ_le_succ (each item inItems))
    simpa using bounded
  simp only [compact, length_cons, length_append, length_nil]
  omega

end Json

end Toolkit
