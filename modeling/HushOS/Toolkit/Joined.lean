import HushOS.Toolkit.Refusal

namespace Toolkit

/-!
# Words joined by a separator

Words that are not empty and do not hold the separator are known from their
joined text: `joined_injective`.
-/

/-- Words in a row, the separator between each two. -/
def joined (separator : Char) (words : List String) : String :=
  String.ofList ([separator].intercalate (words.map String.toList))

/-- Words a separator can join without loss. -/
def Joinable (separator : Char) (words : List String) : Prop :=
  ∀ word ∈ words, word ≠ "" ∧ separator ∉ word.toList

variable {separator : Char}

/-- Joined words are split again at the separator. -/
theorem splitOn_joined
    {words : List String}
    (joinable : Joinable separator words)
    (nonempty : words ≠ []) :
    (joined separator words).toList.splitOn separator =
      words.map String.toList := by
  have separated :
      ∀ word ∈ words.map String.toList, separator ∉ word := by
    intro word member
    obtain ⟨original, originalMember, rfl⟩ := List.mem_map.mp member
    exact (joinable original originalMember).2
  simpa [joined] using
    List.splitOn_intercalate separator separated (by simpa using nonempty)

theorem joined_eq_empty
    {words : List String}
    (joinable : Joinable separator words) :
    joined separator words = "" ↔ words = [] := by
  constructor
  · intro empty
    by_contra nonempty
    have split := splitOn_joined joinable nonempty
    rw [empty] at split
    match words with
    | [] =>
      exact nonempty rfl
    | word :: rest =>
      have headEmpty : word.toList = [] := by
        simp only [String.toList_empty, List.splitOn_nil, List.map_cons,
          List.cons.injEq] at split
        exact split.1.symm
      have wordEmpty : word = "" := by
        simpa using headEmpty
      exact (joinable word (by simp)).1 wordEmpty
  · rintro rfl
    simp [joined]

/-- Joinable parts are told by their joined text. -/
theorem joined_injective
    {first second : List String}
    (firstJoinable : Joinable separator first)
    (secondJoinable : Joinable separator second)
    (same : joined separator first = joined separator second) :
    first = second := by
  by_cases firstEmpty : first = []
  · have secondEmpty : joined separator second = "" := by
      rw [← same]
      exact (joined_eq_empty firstJoinable).mpr firstEmpty
    rw [firstEmpty, (joined_eq_empty secondJoinable).mp secondEmpty]
  · by_cases secondEmpty : second = []
    · have impossible : joined separator first = "" := by
        rw [same]
        exact (joined_eq_empty secondJoinable).mpr secondEmpty
      exact absurd ((joined_eq_empty firstJoinable).mp impossible) firstEmpty
    · have firstSplit := splitOn_joined firstJoinable firstEmpty
      rw [same, splitOn_joined secondJoinable secondEmpty] at firstSplit
      have toListInjective : Function.Injective String.toList :=
        fun _ _ => String.toList_injective
      exact (List.map_injective_iff.mpr toListInjective firstSplit).symm

end Toolkit
