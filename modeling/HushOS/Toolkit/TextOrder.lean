import HushOS.Toolkit.Refusal

namespace Toolkit

/-!
# Texts in order

Texts are ordered by their characters, as their bytes would order them in
ASCII.  Sorting a list by a text each item carries gives one answer for every
order the items came in, as long as no two items carry the same text.
-/

/-- One text comes before another. -/
def Before (first second : String) : Prop :=
  first.toList < second.toList

instance : DecidableRel Before := fun first second =>
  inferInstanceAs (Decidable (first.toList < second.toList))

theorem Before.irrefl (text : String) : ¬ Before text text :=
  lt_irrefl text.toList

theorem Before.trans
    {first second third : String}
    (earlier : Before first second)
    (later : Before second third) :
    Before first third :=
  lt_trans earlier later

instance : Trans Before Before Before where
  trans := Before.trans

variable {first second : String}

theorem Before.eq_of_not
    (notBefore : ¬ Before first second)
    (notAfter : ¬ Before second first) :
    first = second :=
  String.toList_injective
    (le_antisymm (not_lt.mp notAfter) (not_lt.mp notBefore))

theorem Before.connected
    (differs : first ≠ second) :
    Before first second ∨ Before second first := by
  by_contra neither
  rw [not_or] at neither
  exact differs (Before.eq_of_not neither.1 neither.2)

theorem Before.not_after
    (earlier : Before first second) :
    ¬ Before second first :=
  fun later => Before.irrefl first (earlier.trans later)

section Sorting

variable (key : α → String)

/-- An item may stand before another: its key does not come after. -/
def NotAfter (first second : α) : Prop :=
  ¬ Before (key second) (key first)

instance : DecidableRel (NotAfter key) := fun first second =>
  inferInstanceAs (Decidable (¬ Before (key second) (key first)))

instance : Std.Total (NotAfter key) where
  total _ _ := le_total _ _ |>.imp not_lt.mpr not_lt.mpr

instance : IsTrans α (NotAfter key) where
  trans _ _ _ earlier later :=
    not_lt.mpr (le_trans (not_lt.mp earlier) (not_lt.mp later))

/-- A list sorted by the text each item carries. -/
def sortBy (items : List α) : List α :=
  items.insertionSort (NotAfter key)

theorem sortBy_perm (items : List α) :
    (sortBy key items).Perm items :=
  List.perm_insertionSort _ items

@[simp] theorem mem_sortBy
    {items : List α}
    {item : α} :
    item ∈ sortBy key items ↔ item ∈ items :=
  (sortBy_perm key items).mem_iff

@[simp] theorem length_sortBy (items : List α) :
    (sortBy key items).length = items.length :=
  (sortBy_perm key items).length_eq

/-- Ascending lists of the same texts are equal. -/
theorem eq_of_ascending
    {first second : List String}
    (firstAscending : first.Pairwise Before)
    (secondAscending : second.Pairwise Before)
    (same : ∀ text, text ∈ first ↔ text ∈ second) :
    first = second := by
  have nodup {texts : List String} (ascending : texts.Pairwise Before) :
      texts.Nodup := by
    refine List.Pairwise.imp ?_ ascending
    rintro text _ before rfl
    exact Before.irrefl text before
  have perm : first.Perm second :=
    (List.perm_ext_iff_of_nodup (nodup firstAscending)
      (nodup secondAscending)).mpr same
  exact perm.eq_of_pairwise
    (fun _ _ _ _ before after => (before.not_after after).elim)
    firstAscending secondAscending

end Sorting

instance : Std.Antisymm (NotAfter (id : String → String)) where
  antisymm _ _ notBefore notAfter := Before.eq_of_not notAfter notBefore

/-- The texts of a set, in order. -/
def inOrder (texts : Finset String) : List String :=
  texts.sort (NotAfter id)

@[simp] theorem mem_inOrder
    {texts : Finset String}
    {text : String} :
    text ∈ inOrder texts ↔ text ∈ texts :=
  Finset.mem_sort (NotAfter id)

theorem ascending_inOrder (texts : Finset String) :
    (inOrder texts).Pairwise Before := by
  have sorted : (inOrder texts).Pairwise (NotAfter id) :=
    Finset.pairwise_sort texts (NotAfter id)
  have distinct : (inOrder texts).Nodup :=
    Finset.sort_nodup texts (NotAfter id)
  refine sorted.imp₂ ?_ distinct
  intro first second notAfter differs
  exact (Before.connected differs).resolve_right notAfter

@[simp] theorem toFinset_inOrder (texts : Finset String) :
    (inOrder texts).toFinset = texts :=
  Finset.sort_toFinset texts (NotAfter id)

end Toolkit
