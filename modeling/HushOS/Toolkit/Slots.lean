import HushOS.Toolkit.OrderedMap

namespace Toolkit

open List

/-!
# Slots

Two ids in one text with a slash between, as the keys of a map, and the scans
over such keys by their first or their last id.  Where the ids have no slash a
slot stands for its pair alone, and a scan finds the slots of its id alone.
-/

/-- Two ids in one text, a slash between. -/
def slashed (first second : String) : String :=
  first ++ "/" ++ second

/-- Whether a text begins with another. -/
def begins (text start : String) : Bool :=
  start.toList.isPrefixOf text.toList

/-- Whether a text ends with another. -/
def finishes (text ending : String) : Bool :=
  ending.toList.isSuffixOf text.toList

/-- An id without a slash. -/
def Slashless (id : String) : Prop :=
  '/' ∉ id.toList

namespace Slots

@[simp] theorem toList_slashed (first second : String) :
    (slashed first second).toList =
      first.toList ++ '/' :: second.toList := by
  simp [slashed]

/-- Slashless heads are told from their tails. -/
theorem append_slash_inj
    {first second others later : List Char}
    (firstPlain : '/' ∉ first)
    (othersPlain : '/' ∉ others) :
    first ++ '/' :: second = others ++ '/' :: later ↔
      first = others ∧ second = later := by
  constructor
  · intro same
    induction first generalizing others with
    | nil =>
      cases others with
      | nil =>
        exact ⟨rfl, (List.cons.inj same).2⟩
      | cons char rest =>
        have slash := (List.cons.inj same).1
        exact absurd (slash ▸ mem_cons_self) othersPlain
    | cons char rest inductionHypothesis =>
      cases others with
      | nil =>
        have slash := (List.cons.inj same).1
        exact absurd (slash ▸ mem_cons_self) firstPlain
      | cons other more =>
        obtain ⟨rfl, tails⟩ := List.cons.inj same
        obtain ⟨rfl, rfl⟩ := inductionHypothesis
          (fun member => firstPlain (mem_cons_of_mem _ member))
          (fun member => othersPlain (mem_cons_of_mem _ member))
          tails
        exact ⟨rfl, rfl⟩
  · rintro ⟨rfl, rfl⟩
    rfl

/-- Slashed pairs of slashless ids are told apart. -/
theorem slashed_inj
    {first second other later : String}
    (firstPlain : Slashless first)
    (secondPlain : Slashless second) :
    slashed first second = slashed other later ↔
      first = other ∧ second = later := by
  rw [← String.toList_inj, toList_slashed, toList_slashed,
    ← String.toList_inj, ← String.toList_inj]
  constructor
  · intro same
    by_cases otherPlain : '/' ∈ other.toList
    · -- The other pair's slot then has a slash more.
      have counted := congrArg (List.count '/') same
      simp only [count_append, count_cons_self,
        count_eq_zero_of_not_mem firstPlain,
        count_eq_zero_of_not_mem secondPlain] at counted
      have positive := count_pos_iff.mpr otherPlain
      omega
    · exact (append_slash_inj firstPlain otherPlain).mp same
  · rintro ⟨firstSame, secondSame⟩
    rw [firstSame, secondSame]

theorem begins_slashed
    {first second other : String}
    (firstPlain : Slashless first)
    (secondPlain : Slashless second) :
    begins (slashed first second) (slashed other "") = true ↔
      first = other := by
  rw [begins, isPrefixOf_iff_prefix]
  constructor
  · rintro ⟨rest, whole⟩
    have same :
        slashed first second = slashed other (String.ofList rest) := by
      rw [← String.toList_inj, ← whole]
      simp
    exact ((slashed_inj firstPlain secondPlain).mp same).1
  · rintro rfl
    exact ⟨second.toList, by simp⟩

theorem begins_slashed_of_plain
    {first second other : String}
    (firstPlain : Slashless first)
    (otherPlain : Slashless other) :
    begins (slashed first second) (slashed other "") = true ↔
      first = other := by
  rw [begins, isPrefixOf_iff_prefix]
  constructor
  · rintro ⟨rest, whole⟩
    rw [toList_slashed, toList_slashed, String.toList_empty,
      append_assoc, singleton_append] at whole
    rw [← String.toList_inj]
    exact ((append_slash_inj otherPlain firstPlain).mp whole).1.symm
  · rintro rfl
    exact ⟨second.toList, by simp⟩

end Slots

end Toolkit
