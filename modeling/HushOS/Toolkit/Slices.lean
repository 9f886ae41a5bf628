import Mathlib.Data.List.Basic
import Mathlib.Order.Monotone.Basic
import Mathlib.Tactic.Linarith

namespace Toolkit

open List

/-!
# Slices of a list

A list cut at places that only rise is the slices between them, end to end;
and of slices laid end to end, each is found between its places.
-/

namespace Slices

variable {α : Type}

/-- What a list holds from one place up to another. -/
def slice (items : List α) (from_ to_ : Nat) : List α :=
  (items.take to_).drop from_

theorem getElem?_slice
    (items : List α)
    (from_ to_ index : Nat) :
    (slice items from_ to_)[index]? =
      if from_ + index < to_ then items[from_ + index]? else none := by
  rw [slice, getElem?_drop, getElem?_take]

theorem length_slice
    (items : List α)
    (from_ to_ : Nat) :
    (slice items from_ to_).length = min to_ items.length - from_ := by
  rw [slice, length_drop, length_take]

variable {from_ to_ : Nat} {items : List α} {cut : Nat → Nat} {part : Nat → List α}

theorem slice_eq_nil
    (empty : min to_ items.length ≤ from_) :
    slice items from_ to_ = [] := by
  rw [← length_eq_zero_iff, length_slice]
  omega

theorem slice_of_length_le
    (covers : items.length ≤ to_) :
    slice items from_ to_ = items.drop from_ := by
  rw [slice, take_of_length_le covers]

theorem slice_append_slice
    {from_ middle to_ : Nat}
    (rises : from_ ≤ middle)
    (risesToo : middle ≤ to_) :
    slice items from_ middle ++ slice items middle to_ =
      slice items from_ to_ := by
  refine ext_getElem? fun index => ?_
  rw [getElem?_append, length_slice, getElem?_slice, getElem?_slice,
    getElem?_slice]
  by_cases short : items.length ≤ from_ + index
  · have far : items.length ≤
        middle + (index - (min middle items.length - from_)) := by
      omega
    rw [getElem?_eq_none short, getElem?_eq_none far]
    simp
  · by_cases inside : from_ + index < middle
    · rw [if_pos (by omega), if_pos inside, if_pos (by omega)]
    · rw [if_neg (by omega), show middle +
        (index - (min middle items.length - from_)) = from_ + index by omega]

/-- A slice of a slice is one slice. -/
theorem slice_slice
    (items : List α)
    (from_ to_ start stop : Nat) :
    slice (slice items from_ to_) start stop =
      slice items (from_ + start) (min to_ (from_ + stop)) := by
  refine ext_getElem? fun index => ?_
  rw [getElem?_slice, getElem?_slice, getElem?_slice, ← Nat.add_assoc]
  by_cases inside : start + index < stop
  · rw [if_pos inside]
    by_cases within : from_ + start + index < to_
    · rw [if_pos within, if_pos (by omega)]
    · rw [if_neg within, if_neg (by omega)]
  · rw [if_neg inside, if_neg (by omega)]

theorem take_slice
    (items : List α)
    (from_ to_ count : Nat) :
    (slice items from_ to_).take count =
      slice items from_ (min to_ (from_ + count)) :=
  slice_slice items from_ to_ 0 count

theorem slice_append_of_le
    {items others : List α}
    (within : to_ ≤ items.length) :
    slice (items ++ others) from_ to_ = slice items from_ to_ := by
  rw [slice, slice, take_append_of_le_length within]

/-- Slices between rising cuts make the slice between the ends. -/
theorem flatMap_slice
    (items : List α)
    (rises : Monotone cut)
    (count : Nat) :
    (List.range count).flatMap
        (fun index => slice items (cut index) (cut (index + 1))) =
      slice items (cut 0) (cut count) := by
  induction count with
  | zero =>
    exact (slice_eq_nil (min_le_left _ _)).symm
  | succ count inductionHypothesis =>
    rw [range_succ, flatMap_append, inductionHypothesis,
      flatMap_singleton]
    exact slice_append_slice (rises (Nat.zero_le count))
      (rises (Nat.le_succ count))

theorem cut_le
    {count before after : Nat}
    (fits : ∀ index < count, cut (index + 1) = cut index + (part index).length)
    (rises : before ≤ after)
    (within : after ≤ count) :
    cut before ≤ cut after := by
  induction after, rises using Nat.le_induction with
  | base =>
    exact le_rfl
  | succ after rises inductionHypothesis =>
    calc cut before
        ≤ cut after := inductionHypothesis (Nat.le_of_succ_le within)
      _ ≤ cut (after + 1) := by
          rw [fits after within]
          exact Nat.le_add_right ..

theorem length_flatMap
    {count : Nat}
    (start : cut 0 = 0)
    (fits : ∀ index < count, cut (index + 1) = cut index + (part index).length) :
    ((List.range count).flatMap part).length = cut count := by
  induction count with
  | zero =>
    exact start.symm
  | succ count inductionHypothesis =>
    rw [range_succ, flatMap_append, length_append,
      flatMap_singleton, inductionHypothesis
        fun index below => fits index (Nat.lt_succ_of_lt below)]
    exact (fits count (Nat.lt_succ_self count)).symm

/-- Between its cuts the whole holds its part. -/
theorem slice_flatMap
    {count index : Nat}
    (start : cut 0 = 0)
    (fits : ∀ index < count, cut (index + 1) = cut index + (part index).length)
    (below : index < count) :
    slice ((List.range count).flatMap part) (cut index) (cut (index + 1)) =
      part index := by
  induction count with
  | zero =>
    exact absurd below (Nat.not_lt_zero index)
  | succ count inductionHypothesis =>
    have fitsBefore : ∀ index < count,
        cut (index + 1) = cut index + (part index).length :=
      fun index before => fits index (Nat.lt_succ_of_lt before)
    have long := length_flatMap start fitsBefore
    rw [range_succ, flatMap_append, flatMap_singleton]
    rcases Nat.lt_succ_iff_lt_or_eq.mp below with before | rfl
    · have rises : cut (index + 1) ≤ cut count :=
        cut_le fitsBefore before le_rfl
      rw [slice_append_of_le (long ▸ rises)]
      exact inductionHypothesis fitsBefore before
    · rw [slice, fits index below, take_append, drop_append]
      simp [long]

end Slices

end Toolkit
