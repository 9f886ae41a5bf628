import Mathlib.Algebra.Order.Floor.Div
import Mathlib.Data.Finset.Card
import Mathlib.Order.Interval.Finset.Nat
import Mathlib.Tactic.Ring

namespace Toolkit

namespace Rounding

/-!
# Rounding up to what keeps the top bits

A number rounded up to a step is the least multiple of the step that holds it.
Padmé rounds to a step of its own for each power of two: the bits kept are as
many as the exponent's own length.
-/

/-- A number rounded up to a multiple of a step. -/
def roundUp (step value : Nat) : Nat :=
  step * (value ⌈/⌉ step)

theorem dvd_roundUp (step value : Nat) : step ∣ roundUp step value :=
  Dvd.intro _ rfl

theorem le_roundUp
    {step : Nat}
    (positive : 0 < step)
    (value : Nat) :
    value ≤ roundUp step value :=
  le_smul_ceilDiv positive

theorem roundUp_le
    {step value multiple : Nat}
    (positive : 0 < step)
    (divides : step ∣ multiple)
    (holds : value ≤ multiple) :
    roundUp step value ≤ multiple := by
  obtain ⟨count, rfl⟩ := divides
  exact Nat.mul_le_mul_left step ((ceilDiv_le_iff_le_mul positive).mpr holds)

theorem roundUp_lt
    {step : Nat}
    (positive : 0 < step)
    (value : Nat) :
    roundUp step value < value + step := by
  have parts := Nat.div_add_mod (value + step - 1) step
  rw [roundUp, Nat.ceilDiv_eq_add_pred_div]
  omega

theorem roundUp_of_dvd
    {step value : Nat}
    (positive : 0 < step)
    (divides : step ∣ value) :
    roundUp step value = value :=
  Nat.le_antisymm (roundUp_le positive divides (Nat.le_refl _))
    (le_roundUp positive value)

theorem roundUp_mono
    {step smaller larger : Nat}
    (positive : 0 < step)
    (ordered : smaller ≤ larger) :
    roundUp step smaller ≤ roundUp step larger :=
  roundUp_le positive (dvd_roundUp step larger)
    (ordered.trans (le_roundUp positive larger))

/-- How many bits Padmé keeps below the top one of a number from `2 ^ exponent`. -/
def keptBits (exponent : Nat) : Nat :=
  Nat.log2 exponent + 1

/-- How many bits it clears. -/
def clearedBits (exponent : Nat) : Nat :=
  exponent - keptBits exponent

/-- A number rounded up to the step of its power of two. -/
def padme (value : Nat) : Nat :=
  roundUp (2 ^ clearedBits (Nat.log2 value)) value

theorem keptBits_succ_le (exponent : Nat) :
    keptBits (exponent + 1) ≤ keptBits exponent + 1 := by
  have below : exponent + 1 < 2 ^ (keptBits exponent + 1) := by
    have top := Nat.lt_log2_self (n := exponent)
    rw [keptBits, Nat.pow_succ]
    omega
  have shorter : Nat.log2 (exponent + 1) < keptBits exponent + 1 :=
    (Nat.log2_lt (Nat.succ_ne_zero exponent)).mpr below
  exact shorter

theorem clearedBits_mono : Monotone clearedBits := by
  refine monotone_nat_of_le_succ fun exponent => ?_
  have kept := keptBits_succ_le exponent
  simp only [clearedBits]
  omega

theorem clearedBits_le (exponent : Nat) : clearedBits exponent ≤ exponent :=
  Nat.sub_le _ _

variable {value smaller larger : Nat}

theorem le_padme (value : Nat) : value ≤ padme value :=
  le_roundUp (Nat.two_pow_pos _) value

theorem padme_le_pow (value : Nat) :
    padme value ≤ 2 ^ (Nat.log2 value + 1) := by
  have divides : 2 ^ clearedBits (Nat.log2 value) ∣ 2 ^ (Nat.log2 value + 1) :=
    pow_dvd_pow 2 ((clearedBits_le _).trans (Nat.le_succ _))
  exact roundUp_le (Nat.two_pow_pos _) divides Nat.lt_log2_self.le

theorem padme_two_pow (exponent : Nat) : padme (2 ^ exponent) = 2 ^ exponent := by
  refine roundUp_of_dvd (Nat.two_pow_pos _) ?_
  rw [Nat.log2_two_pow]
  exact pow_dvd_pow 2 (clearedBits_le exponent)

/-- Padding what was padded changes nothing. -/
theorem padme_padme (nonzero : value ≠ 0) : padme (padme value) = padme value := by
  have holds := le_padme value
  rcases (padme_le_pow value).eq_or_lt with carried | within
  · rw [carried, padme_two_pow]
  · have bottom := (Nat.log2_self_le nonzero).trans holds
    have sameExponent : Nat.log2 (padme value) = Nat.log2 value :=
      (Nat.log2_eq_iff (by omega)).mpr ⟨bottom, within⟩
    rw [padme, sameExponent]
    exact roundUp_of_dvd (Nat.two_pow_pos _) (dvd_roundUp _ value)

/-- A larger value is padded to no less. -/
theorem padme_mono
    (nonzero : smaller ≠ 0)
    (ordered : smaller ≤ larger) :
    padme smaller ≤ padme larger := by
  have largerNonzero : larger ≠ 0 := by omega
  have exponents : Nat.log2 smaller ≤ Nat.log2 larger :=
    (Nat.le_log2 largerNonzero).mpr ((Nat.log2_self_le nonzero).trans ordered)
  rcases exponents.eq_or_lt with same | below
  · rw [padme, padme, same]
    exact roundUp_mono (Nat.two_pow_pos _) ordered
  · calc
      padme smaller ≤ 2 ^ (Nat.log2 smaller + 1) := padme_le_pow smaller
      _ ≤ 2 ^ Nat.log2 larger := Nat.pow_le_pow_right (by decide) below
      _ ≤ larger := Nat.log2_self_le largerNonzero
      _ ≤ padme larger := le_padme larger

/-- Padding adds less than the kept bits' share of the value. -/
theorem padme_sub_lt
    (nonzero : value ≠ 0)
    (room : keptBits (Nat.log2 value) ≤ Nat.log2 value) :
    (padme value - value) * 2 ^ keptBits (Nat.log2 value) < value := by
  have holds := le_padme value
  have added : padme value < value + 2 ^ clearedBits (Nat.log2 value) :=
    roundUp_lt (Nat.two_pow_pos _) value
  have less : padme value - value < 2 ^ clearedBits (Nat.log2 value) := by
    omega
  calc
    (padme value - value) * 2 ^ keptBits (Nat.log2 value)
        < 2 ^ clearedBits (Nat.log2 value) * 2 ^ keptBits (Nat.log2 value) :=
      Nat.mul_lt_mul_of_pos_right less (Nat.two_pow_pos _)
    _ = 2 ^ Nat.log2 value := by
      rw [← Nat.pow_add, clearedBits, Nat.sub_add_cancel room]
    _ ≤ value := Nat.log2_self_le nonzero

/-- The paddings from one power of two to the next. -/
def paddings (exponent : Nat) : Finset Nat :=
  (Finset.range (2 ^ keptBits exponent + 1)).image fun count =>
    2 ^ exponent + 2 ^ clearedBits exponent * count

theorem card_paddings_le (exponent : Nat) :
    (paddings exponent).card ≤ 2 ^ keptBits exponent + 1 :=
  Finset.card_image_le.trans (Finset.card_range _).le

/-- A padded value is one of its exponent's few paddings. -/
theorem padme_mem_paddings
    {exponent : Nat}
    (room : keptBits exponent ≤ exponent)
    (bottom : 2 ^ exponent ≤ value)
    (top : value ≤ 2 ^ (exponent + 1)) :
    padme value ∈ paddings exponent := by
  have positive := Nat.two_pow_pos (clearedBits exponent)
  have parts : 2 ^ clearedBits exponent * 2 ^ keptBits exponent = 2 ^ exponent := by
    rw [← Nat.pow_add, clearedBits, Nat.sub_add_cancel room]
  -- The next power of two is its own padding, and a multiple of this step too.
  have shape : 2 ^ clearedBits exponent ∣ padme value ∧
      padme value ≤ 2 ^ (exponent + 1) := by
    rcases top.eq_or_lt with rfl | below
    · rw [padme_two_pow]
      exact ⟨pow_dvd_pow 2 ((clearedBits_le _).trans (Nat.le_succ _)), Nat.le_refl _⟩
    · have nonzero : value ≠ 0 := by
        have := Nat.two_pow_pos exponent
        omega
      have isExponent : Nat.log2 value = exponent :=
        (Nat.log2_eq_iff nonzero).mpr ⟨bottom, below⟩
      have within := padme_le_pow value
      rw [isExponent] at within
      refine ⟨?_, within⟩
      rw [padme, isExponent]
      exact dvd_roundUp _ value
  obtain ⟨⟨count, equal⟩, within⟩ := shape
  have least : 2 ^ keptBits exponent ≤ count := by
    refine Nat.le_of_mul_le_mul_left ?_ positive
    rw [parts, ← equal]
    exact bottom.trans (le_padme value)
  have most : count ≤ 2 ^ keptBits exponent + 2 ^ keptBits exponent := by
    refine Nat.le_of_mul_le_mul_left ?_ positive
    rw [Nat.mul_add, parts, ← equal]
    have doubled : 2 ^ (exponent + 1) = 2 ^ exponent + 2 ^ exponent := by
      rw [Nat.pow_succ]
      omega
    omega
  refine Finset.mem_image.mpr ⟨count - 2 ^ keptBits exponent, ?_, ?_⟩
  · rw [Finset.mem_range]
    omega
  · rw [equal, ← parts, ← Nat.mul_add, Nat.add_sub_of_le least]

end Rounding

end Toolkit
