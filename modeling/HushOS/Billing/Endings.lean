import Mathlib.Data.Rat.Floor
import Mathlib.Algebra.Order.Field.Rat
import Mathlib.Tactic.Positivity
import Mathlib.Tactic.Push
import Mathlib.Tactic.Ring

namespace HushOS

open List

namespace Billing

/-!
# What an ending plan gives back, and what a raise costs

When a family's plan is revoked its owner is refunded the part of its last
period nobody used, order by order, prorated by the second and rounded down.
A raise is charged for the part of the period left, rounded down too.

Times are milliseconds since the epoch, amounts are minor units.
-/

/-- Whole seconds of so many milliseconds. -/
def seconds (ms : Int) : Int :=
  ms / 1000

/-- A fraction of the seconds an order paid for. -/
structure Share where
  unused : Int
  total : Int
  deriving DecidableEq, Repr

/-- An order of a plan's last period, when it ended and when its owner left. -/
structure EndedOrder where
  createdAt : Int
  /-- Whether it changed the plan, and so pays from when it was made. -/
  change : Bool
  periodStart : Int
  periodEnd : Int
  revokedAt : Int
  pooledAt : Int
  deriving DecidableEq, Repr

/-- Where the span an order pays for starts. -/
def EndedOrder.spanStart (order : EndedOrder) : Int :=
  if order.change then order.createdAt else order.periodStart

/-- The seconds of the span an order pays for. -/
def EndedOrder.spanSeconds (order : EndedOrder) : Int :=
  seconds (order.periodEnd - order.spanStart)

/-- From when an order is unused: all of its span, once its owner had left. -/
def EndedOrder.unusedFrom (order : EndedOrder) : Int :=
  if order.pooledAt ≤ order.createdAt then
    order.spanStart
  else
    max order.revokedAt order.spanStart

/-- The unused share of an order, as a fraction of the seconds it paid for. -/
def unusedShare (order : EndedOrder) : Share :=
  let total := order.spanSeconds
  if total ≤ 0 then
    ⟨0, 1⟩
  else
    let unused := seconds (max 0 (order.periodEnd - order.unusedFrom))
    ⟨if unused < total then unused else total, total⟩

/-- An amount's share, rounded down, toward minus infinity for a credit. -/
def shareOf (amount : Int) (share : Share) : Int :=
  let product := amount * share.unused
  let quotient := product.tdiv share.total
  if product < 0 ∧ quotient * share.total ≠ product then
    quotient - 1
  else
    quotient

/-- A share as an exact fraction. -/
def Share.fraction (share : Share) : ℚ :=
  share.unused / share.total

/-- A change of places in a period, at a time. -/
structure UnitsChange where
  perMember : Nat
  includedMembers : Int
  fromUnits : Int
  toUnits : Int
  periodStart : Int
  periodEnd : Int
  now : Int
  deriving DecidableEq, Repr

namespace UnitsChange

variable (change : UnitsChange)

/-- The places that are paid for, past those included. -/
def billable (units : Int) : Int :=
  max 0 (units - change.includedMembers)

/-- The places a change adds to those paid for. -/
def added : Int :=
  change.billable change.toUnits - change.billable change.fromUnits

/-- The seconds of the period. -/
def total : Int :=
  seconds (change.periodEnd - change.periodStart)

/-- The seconds of the period left. -/
def left : Int :=
  min change.total (max 0 (seconds (change.periodEnd - change.now)))

end UnitsChange

/-- What is charged at once for a change of places, before tax. -/
def quoteUnitsChange (change : UnitsChange) : Int :=
  if change.added ≤ 0 ∨ change.total ≤ 0 then
    0
  else
    (change.added * change.perMember * change.left).tdiv change.total

section Rounding

theorem seconds_mono {first second : Int} (rises : first ≤ second) :
    seconds first ≤ seconds second :=
  Int.ediv_le_ediv (by decide) rises

@[simp] theorem seconds_zero : seconds 0 = 0 :=
  rfl

/-- The share of an amount is its unused part, rounded down. -/
theorem shareOf_eq
    {amount : Int}
    {share : Share}
    (positive : 0 < share.total) :
    shareOf amount share = amount * share.unused / share.total := by
  have exact_ : amount * share.unused / share.total * share.total =
      amount * share.unused ↔ share.total ∣ amount * share.unused :=
    ⟨Dvd.intro_left _, Int.ediv_mul_cancel⟩
  have rounds := @Int.tdiv_eq_ediv (amount * share.unused) share.total
  rw [Int.sign_eq_one_of_pos positive] at rounds
  unfold shareOf
  dsimp only
  by_cases whole : share.total ∣ amount * share.unused
  · rw [if_pos (.inr whole), Int.add_zero] at rounds
    rw [rounds, if_neg fun rounded => rounded.2 (exact_.mpr whole)]
  · by_cases credit : amount * share.unused < 0
    · have inexact : ¬ (0 ≤ amount * share.unused ∨
          share.total ∣ amount * share.unused) := by
        rintro (nonneg | divides)
        · exact not_lt.mpr nonneg credit
        · exact whole divides
      rw [if_neg inexact] at rounds
      have rounded : (amount * share.unused / share.total + 1) * share.total ≠
          amount * share.unused := fun same =>
        whole (Dvd.intro_left _ same)
      rw [rounds, if_pos ⟨credit, rounded⟩, Int.add_sub_cancel]
    · rw [if_pos (.inl (not_lt.mp credit)), Int.add_zero] at rounds
      rw [rounds, if_neg fun rounded => credit rounded.1]

theorem shareOf_eq_floor
    {amount : Int}
    {share : Share}
    (positive : 0 < share.total) :
    shareOf amount share = ⌊(amount : ℚ) * share.fraction⌋ := by
  obtain ⟨total, isTotal⟩ := Int.eq_ofNat_of_zero_le positive.le
  rw [shareOf_eq positive, Share.fraction, ← mul_div_assoc, ← Int.cast_mul,
    isTotal, Int.cast_natCast, Rat.floor_intCast_div_natCast]

end Rounding

section Orders

variable (order : EndedOrder)

theorem unusedShare_empty (empty : order.spanSeconds ≤ 0) :
    unusedShare order = ⟨0, 1⟩ :=
  if_pos empty

theorem unusedShare_paid (paid : 0 < order.spanSeconds) :
    unusedShare order =
      ⟨min (seconds (max 0 (order.periodEnd - order.unusedFrom)))
        order.spanSeconds, order.spanSeconds⟩ := by
  unfold unusedShare
  dsimp only
  rw [if_neg (not_le.mpr paid), min_def]
  split
  · next less => rw [if_pos less.le]
  · next enough =>
      split
      · next most => rw [le_antisymm most (not_lt.mp enough)]
      · rfl

theorem unusedShare_bounds :
    0 ≤ (unusedShare order).unused ∧
      (unusedShare order).unused ≤ (unusedShare order).total ∧
      0 < (unusedShare order).total := by
  rcases le_or_gt order.spanSeconds 0 with empty | paid
  · rw [unusedShare_empty order empty]
    decide
  · have nonneg : 0 ≤ seconds (max 0 (order.periodEnd - order.unusedFrom)) := by
      rw [← seconds_zero]
      exact seconds_mono (le_max_left ..)
    rw [unusedShare_paid order paid]
    exact ⟨le_min nonneg paid.le, min_le_right .., paid⟩

/-- An order revoked later has no more unused time. -/
theorem unusedShare_later
    {revokedAt : Int}
    (later : order.revokedAt ≤ revokedAt) :
    (unusedShare { order with revokedAt := revokedAt }).total =
        (unusedShare order).total ∧
      (unusedShare { order with revokedAt := revokedAt }).unused ≤
        (unusedShare order).unused := by
  have same : ({ order with revokedAt := revokedAt } : EndedOrder).spanSeconds =
      order.spanSeconds := rfl
  rcases le_or_gt order.spanSeconds 0 with empty | paid
  · rw [unusedShare_empty order empty, unusedShare_empty _ (same ▸ empty)]
    exact ⟨rfl, le_rfl⟩
  · have further : order.unusedFrom ≤
        ({ order with revokedAt := revokedAt } : EndedOrder).unusedFrom := by
      unfold EndedOrder.unusedFrom
      by_cases pooled : order.pooledAt ≤ order.createdAt
      · rw [if_pos pooled, if_pos pooled]
        exact le_rfl
      · rw [if_neg pooled, if_neg pooled]
        exact max_le_max later le_rfl
    rw [unusedShare_paid order paid, unusedShare_paid _ (same ▸ paid)]
    exact ⟨rfl, min_le_min
      (seconds_mono (max_le_max le_rfl (sub_le_sub_left further _))) le_rfl⟩

theorem unusedShare_pooled
    (pooled : order.pooledAt ≤ order.createdAt)
    (paid : 0 < order.spanSeconds) :
    (unusedShare order).unused = (unusedShare order).total := by
  have whole : order.spanSeconds ≤
      seconds (max 0 (order.periodEnd - order.unusedFrom)) := by
    rw [EndedOrder.unusedFrom, if_pos pooled]
    exact seconds_mono (le_max_right ..)
  rw [unusedShare_paid order paid]
  exact min_eq_right whole

theorem unusedShare_over
    (past : order.periodEnd ≤ order.revokedAt)
    (before : order.createdAt < order.pooledAt ∨ order.spanSeconds ≤ 0) :
    (unusedShare order).unused = 0 := by
  rcases le_or_gt order.spanSeconds 0 with empty | paid
  · rw [unusedShare_empty order empty]
  · have made : order.createdAt < order.pooledAt :=
      before.resolve_right (not_le.mpr paid)
    have spent : order.periodEnd - order.unusedFrom ≤ 0 := by
      rw [EndedOrder.unusedFrom, if_neg (not_le.mpr made)]
      exact sub_nonpos.mpr (past.trans (le_max_left ..))
    rw [unusedShare_paid order paid, max_eq_left spent, seconds_zero]
    exact min_eq_left paid.le

theorem fraction_later
    {revokedAt : Int}
    (later : order.revokedAt ≤ revokedAt) :
    (unusedShare { order with revokedAt := revokedAt }).fraction ≤
      (unusedShare order).fraction := by
  obtain ⟨total, unused⟩ := unusedShare_later order later
  have positive : (0 : ℚ) ≤ (unusedShare order).total :=
    Int.cast_nonneg (unusedShare_bounds order).2.2.le
  rw [Share.fraction, Share.fraction, total]
  exact div_le_div_of_nonneg_right (Int.cast_le.mpr unused) positive

end Orders

/-- A renewal that slipped past the revoke is unused, though its period is over. -/
theorem unusedShare_slipped :
    ¬ ∀ order : EndedOrder,
      (order.pooledAt ≤ order.createdAt →
        (unusedShare order).unused = (unusedShare order).total) ∧
      (order.periodEnd ≤ order.revokedAt → (unusedShare order).unused = 0) := by
  intro both
  have past := (both ⟨5000, false, 0, 10000, 20000, 0⟩).2 (by decide)
  exact absurd past (by decide)

section Shares

variable {amount : Int} {share : Share}

theorem fraction_bounds
    (nonneg : 0 ≤ share.unused)
    (most : share.unused ≤ share.total)
    (positive : 0 < share.total) :
    0 ≤ share.fraction ∧ share.fraction ≤ 1 := by
  have total : (0 : ℚ) < share.total := Int.cast_pos.mpr positive
  refine ⟨div_nonneg (Int.cast_nonneg nonneg) total.le, ?_⟩
  rw [Share.fraction, div_le_one total]
  exact Int.cast_le.mpr most

/-- A share is never larger than the amount it is of. -/
theorem abs_shareOf_le
    (nonneg : 0 ≤ share.unused)
    (most : share.unused ≤ share.total)
    (positive : 0 < share.total) :
    |shareOf amount share| ≤ |amount| := by
  obtain ⟨least, all⟩ := fraction_bounds nonneg most positive
  rw [shareOf_eq_floor positive]
  rcases le_total 0 amount with charge | credit
  · have paid : (0 : ℚ) ≤ amount := Int.cast_nonneg charge
    have lower : 0 ≤ ⌊(amount : ℚ) * share.fraction⌋ :=
      Int.floor_nonneg.mpr (mul_nonneg paid least)
    have upper : ⌊(amount : ℚ) * share.fraction⌋ ≤ amount :=
      Int.floor_le_iff.mpr
        (lt_of_le_of_lt (mul_le_of_le_one_right paid all) (lt_add_one _))
    rwa [abs_of_nonneg lower, abs_of_nonneg charge]
  · have owed : (amount : ℚ) ≤ 0 := Int.cast_nonpos.mpr credit
    have lower : amount ≤ ⌊(amount : ℚ) * share.fraction⌋ :=
      Int.le_floor.mpr (le_mul_of_le_one_right owed all)
    have upper : ⌊(amount : ℚ) * share.fraction⌋ ≤ 0 :=
      Int.floor_nonpos (mul_nonpos_of_nonpos_of_nonneg owed least)
    rw [abs_of_nonpos upper, abs_of_nonpos credit]
    exact neg_le_neg lower

theorem shareOf_add_neg (positive : 0 < share.total) :
    shareOf amount share + shareOf (-amount) share = 0 ∨
      shareOf amount share + shareOf (-amount) share = -1 := by
  rw [shareOf_eq_floor positive, shareOf_eq_floor positive, Int.cast_neg,
    neg_mul, Int.floor_neg]
  have low := Int.floor_le_ceil ((amount : ℚ) * share.fraction)
  have high := Int.ceil_le_floor_add_one ((amount : ℚ) * share.fraction)
  omega

theorem sum_shareOf_le
    (items : List (Int × Share))
    (positive : ∀ item ∈ items, 0 < item.2.total) :
    (items.map fun item => shareOf item.1 item.2).sum ≤
      ⌊(items.map fun item => (item.1 : ℚ) * item.2.fraction).sum⌋ := by
  induction items with
  | nil =>
    simp
  | cons item rest inductionHypothesis =>
    have first := positive item mem_cons_self
    have others := inductionHypothesis fun other member =>
      positive other (mem_cons_of_mem item member)
    rw [map_cons, map_cons, sum_cons, sum_cons,
      shareOf_eq_floor first]
    exact (add_le_add_right others _).trans (Int.le_floor_add ..)

end Shares

section Raises

variable (change : UnitsChange)

theorem left_bounds (running : 0 < change.total) :
    0 ≤ change.left ∧ change.left ≤ change.total :=
  ⟨le_min running.le (le_max_left ..), min_le_left ..⟩

theorem quoteUnitsChange_eq (running : 0 < change.total) :
    quoteUnitsChange change =
      max 0 change.added * change.perMember * change.left / change.total := by
  unfold quoteUnitsChange
  rcases le_or_gt change.added 0 with none_ | some_
  · rw [if_pos (.inl none_), max_eq_left none_, zero_mul, zero_mul,
      Int.zero_ediv]
  · have nonneg : 0 ≤ change.added * change.perMember * change.left :=
      mul_nonneg (mul_nonneg some_.le (Int.natCast_nonneg _))
        (left_bounds change running).1
    rw [if_neg (by omega), max_eq_right some_.le,
      Int.tdiv_eq_ediv_of_nonneg nonneg]

theorem quoteUnitsChange_empty (empty : change.total ≤ 0) :
    quoteUnitsChange change = 0 :=
  if_pos (.inr empty)

theorem quoteUnitsChange_bounds :
    0 ≤ quoteUnitsChange change ∧
      quoteUnitsChange change ≤ max 0 change.added * change.perMember := by
  have rate : 0 ≤ max 0 change.added * (change.perMember : Int) :=
    mul_nonneg (le_max_left ..) (Int.natCast_nonneg _)
  rcases le_or_gt change.total 0 with empty | running
  · rw [quoteUnitsChange_empty change empty]
    exact ⟨le_rfl, rate⟩
  · obtain ⟨least, most⟩ := left_bounds change running
    rw [quoteUnitsChange_eq change running]
    exact ⟨Int.ediv_nonneg (mul_nonneg rate least) running.le,
      Int.ediv_le_of_le_mul running (mul_le_mul_of_nonneg_left most rate)⟩

theorem quoteUnitsChange_places
    {fromUnits toUnits : Int}
    (more : change.added ≤
      ({ change with fromUnits := fromUnits, toUnits := toUnits } :
        UnitsChange).added) :
    quoteUnitsChange change ≤ quoteUnitsChange
      { change with fromUnits := fromUnits, toUnits := toUnits } := by
  rcases le_or_gt change.total 0 with empty | running
  · rw [quoteUnitsChange_empty change empty]
    exact (quoteUnitsChange_bounds _).1
  · have least := (left_bounds change running).1
    rw [quoteUnitsChange_eq change running,
      quoteUnitsChange_eq { change with
        fromUnits := fromUnits, toUnits := toUnits } running]
    refine Int.ediv_le_ediv running (mul_le_mul_of_nonneg_right
      (mul_le_mul_of_nonneg_right (max_le_max le_rfl more)
        (Int.natCast_nonneg _)) least)

theorem quoteUnitsChange_later
    {now : Int}
    (later : change.now ≤ now) :
    quoteUnitsChange { change with now := now } ≤ quoteUnitsChange change := by
  rcases le_or_gt change.total 0 with empty | running
  · rw [quoteUnitsChange_empty { change with now := now } empty]
    exact (quoteUnitsChange_bounds _).1
  · have less : ({ change with now := now } : UnitsChange).left ≤ change.left :=
      min_le_min le_rfl (max_le_max le_rfl
        (seconds_mono (sub_le_sub_left later _)))
    rw [quoteUnitsChange_eq change running,
      quoteUnitsChange_eq { change with now := now } running]
    exact Int.ediv_le_ediv running (mul_le_mul_of_nonneg_left less
      (mul_nonneg (le_max_left ..) (Int.natCast_nonneg _)))

theorem ediv_add_ediv
    {first second total : Int}
    (positive : 0 < total) :
    first / total + second / total ≤ (first + second) / total ∧
      (first + second) / total ≤ first / total + second / total + 1 := by
  have lowFirst := Int.ediv_mul_le first positive.ne'
  have lowSecond := Int.ediv_mul_le second positive.ne'
  have highFirst := Int.lt_ediv_add_one_mul_self first positive
  have highSecond := Int.lt_ediv_add_one_mul_self second positive
  constructor
  · rw [Int.le_ediv_iff_mul_le positive]
    linarith
  · rw [← Int.lt_add_one_iff, Int.ediv_lt_iff_lt_mul positive]
    linarith

/-- Two changes in a row are quoted within one unit of one change. -/
theorem quoteUnitsChange_add
    {between : Int}
    (rises : change.fromUnits ≤ between)
    (risesToo : between ≤ change.toUnits) :
    let first := quoteUnitsChange { change with toUnits := between }
    let second := quoteUnitsChange { change with fromUnits := between }
    first + second ≤ quoteUnitsChange change ∧
      quoteUnitsChange change ≤ first + second + 1 := by
  intro first second
  rcases le_or_gt change.total 0 with empty | running
  · have nothing : quoteUnitsChange change = 0 :=
      quoteUnitsChange_empty change empty
    have nothingFirst : first = 0 := quoteUnitsChange_empty _ empty
    have nothingSecond : second = 0 := quoteUnitsChange_empty _ empty
    omega
  · have lower : change.billable change.fromUnits ≤ change.billable between :=
      max_le_max le_rfl (sub_le_sub_right rises _)
    have upper : change.billable between ≤ change.billable change.toUnits :=
      max_le_max le_rfl (sub_le_sub_right risesToo _)
    have isFirst : first =
        (change.billable between - change.billable change.fromUnits) *
          change.perMember * change.left / change.total := by
      rw [← max_eq_right (sub_nonneg.mpr lower)]
      exact quoteUnitsChange_eq { change with toUnits := between } running
    have isSecond : second =
        (change.billable change.toUnits - change.billable between) *
          change.perMember * change.left / change.total := by
      rw [← max_eq_right (sub_nonneg.mpr upper)]
      exact quoteUnitsChange_eq { change with fromUnits := between } running
    have whole : max 0 change.added * change.perMember * change.left =
        (change.billable between - change.billable change.fromUnits) *
            change.perMember * change.left +
          (change.billable change.toUnits - change.billable between) *
            change.perMember * change.left := by
      rw [UnitsChange.added, max_eq_right (sub_nonneg.mpr (lower.trans upper))]
      ring
    rw [quoteUnitsChange_eq change running, whole, isFirst, isSecond]
    exact ediv_add_ediv running

end Raises

/-- What an order of an ended plan gives back. -/
structure GivesBack : Prop where
  /-- A share is between none and all of at least one second. -/
  bounds :
    ∀ order, 0 ≤ (unusedShare order).unused ∧
      (unusedShare order).unused ≤ (unusedShare order).total ∧
      0 < (unusedShare order).total
  /-- It falls the later the plan is revoked. -/
  later :
    ∀ (order : EndedOrder) revokedAt, order.revokedAt ≤ revokedAt →
      (unusedShare { order with revokedAt := revokedAt }).fraction ≤
        (unusedShare order).fraction
  /-- It is all of an order made after its owner left, if that paid for any. -/
  pooled :
    ∀ order : EndedOrder, order.pooledAt ≤ order.createdAt →
      0 < order.spanSeconds →
      (unusedShare order).unused = (unusedShare order).total
  /-- It is none of any other order whose period is over. -/
  past :
    ∀ order : EndedOrder, order.periodEnd ≤ order.revokedAt →
      (order.createdAt < order.pooledAt ∨ order.spanSeconds ≤ 0) →
      (unusedShare order).unused = 0
  /-- No share of an amount is larger than the amount. -/
  within :
    ∀ amount order, |shareOf amount (unusedShare order)| ≤ |amount|
  /-- A charge and the same credit come to nothing, or to one less. -/
  cancels :
    ∀ amount order,
      shareOf amount (unusedShare order) + shareOf (-amount) (unusedShare order) = 0 ∨
      shareOf amount (unusedShare order) + shareOf (-amount) (unusedShare order) = -1
  /-- Orders together give back no more than all of them rounded down once. -/
  sum :
    ∀ paid : List (Int × EndedOrder),
      (paid.map fun item => shareOf item.1 (unusedShare item.2)).sum ≤
        ⌊(paid.map fun item =>
          (item.1 : ℚ) * (unusedShare item.2).fraction).sum⌋

/-- What a raise is charged at once. -/
structure ChargesRaise : Prop where
  /-- Something between nothing and the added places' whole rate. -/
  bounds :
    ∀ change, 0 ≤ quoteUnitsChange change ∧
      quoteUnitsChange change ≤ max 0 change.added * change.perMember
  /-- No less for more places added. -/
  places :
    ∀ (change : UnitsChange) fromUnits toUnits,
      change.added ≤
        ({ change with fromUnits := fromUnits, toUnits := toUnits } :
          UnitsChange).added →
      quoteUnitsChange change ≤ quoteUnitsChange
        { change with fromUnits := fromUnits, toUnits := toUnits }
  /-- No more with less time left. -/
  later :
    ∀ (change : UnitsChange) now, change.now ≤ now →
      quoteUnitsChange { change with now := now } ≤ quoteUnitsChange change
  /-- As much as two raises in turn, or one minor unit more. -/
  consecutive :
    ∀ (change : UnitsChange) between,
      change.fromUnits ≤ between → between ≤ change.toUnits →
      let inTurn := quoteUnitsChange { change with toUnits := between } +
        quoteUnitsChange { change with fromUnits := between }
      inTurn ≤ quoteUnitsChange change ∧ quoteUnitsChange change ≤ inTurn + 1

/-- Refunds and raises are prorated within what was paid and what is charged. -/
theorem prorates : GivesBack ∧ ChargesRaise := by
  constructor
  · refine
      { bounds := unusedShare_bounds
        later := fun order _ later => fraction_later order later
        pooled := unusedShare_pooled
        past := unusedShare_over
        within := ?_
        cancels := fun _ order => shareOf_add_neg (unusedShare_bounds order).2.2
        sum := ?_ }
    · intro amount order
      obtain ⟨nonneg, most, positive⟩ := unusedShare_bounds order
      exact abs_shareOf_le nonneg most positive
    · intro paid
      have whole := sum_shareOf_le
        (paid.map fun item => (item.1, unusedShare item.2)) fun item member => by
          obtain ⟨order, _, rfl⟩ := mem_map.mp member
          exact (unusedShare_bounds order.2).2.2
      rwa [map_map, map_map] at whole
  · exact
      { bounds := quoteUnitsChange_bounds
        places := fun change _ _ more => quoteUnitsChange_places change more
        later := fun change _ later => quoteUnitsChange_later change later
        consecutive := fun change _ rises risesToo =>
          quoteUnitsChange_add change rises risesToo }

end Billing

end HushOS
