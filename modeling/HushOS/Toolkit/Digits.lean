import HushOS.Toolkit.Json
import Mathlib.Tactic.IntervalCases
import Mathlib.Tactic.Ring

namespace Toolkit

namespace Digits

/-!
# Hexadecimal digits in groups

A number is written with so many hexadecimal digits, in groups with a dash
between them, as a uuid is; reading drops the dashes.
-/

open Json List

/-- Whether a character is a hexadecimal digit, a letter in lower case. -/
def isLowerHex (char : Char) : Bool :=
  char.isDigit || (97 ≤ char.toNat && char.toNat ≤ 102)

/-- A number's lowest hexadecimal digits, so many of them. -/
def hexText : Nat → Nat → List Char
  | 0, _ => []
  | width + 1, value => hexText width (value / 16) ++ [hexDigit (value % 16)]

/-- A number's digits in groups of so many, a dash between two groups. -/
def groupsText : List Nat → Nat → List Char
  | [], _ => []
  | [width], value => hexText width value
  | width :: next :: rest, value =>
    hexText width (value / 16 ^ (next :: rest).sum) ++
      '-' :: groupsText (next :: rest) value

/-- Whether a text is digits in groups of so many, a dash between two groups. -/
def isGroups : List Nat → List Char → Bool
  | [], text => text.isEmpty
  | [width], text => text.length = width && text.all isLowerHex
  | width :: next :: rest, text =>
    (text.take width).length = width && (text.take width).all isLowerHex &&
      match text.drop width with
      | '-' :: later => isGroups (next :: rest) later
      | _ => false

/-- What digits say after a number, dashes dropped. -/
def readHex (before : Nat) (text : List Char) : Nat :=
  (text.filter fun char => char ≠ '-').foldl
    (fun value char => 16 * value + (hexValue char).getD 0) before

theorem hexDigit_reads {value : Nat} (small : value < 16) :
    isLowerHex (hexDigit value) = true ∧ hexDigit value ≠ '-' ∧
      hexValue (hexDigit value) = some value := by
  interval_cases value <;> decide

theorem hexText_digits (width value : Nat) :
    (hexText width value).length = width ∧
      (hexText width value).all isLowerHex = true := by
  induction width generalizing value with
  | zero => exact ⟨rfl, rfl⟩
  | succ width inductionHypothesis =>
    obtain ⟨length, digits⟩ := inductionHypothesis (value / 16)
    have last := (hexDigit_reads (Nat.mod_lt value (by decide : 16 > 0))).1
    simp [hexText, length, digits, last]

/-- Grouped hex has the shape of its widths. -/
theorem isGroups_groupsText (widths : List Nat) (value : Nat) :
    isGroups widths (groupsText widths value) = true := by
  induction widths with
  | nil => rfl
  | cons width rest inductionHypothesis =>
    cases rest with
    | nil =>
      obtain ⟨length, digits⟩ := hexText_digits width value
      simp [groupsText, isGroups, length, digits]
    | cons next rest =>
      obtain ⟨length, digits⟩ :=
        hexText_digits width (value / 16 ^ (next :: rest).sum)
      simp only [groupsText, isGroups, take_left' length,
        drop_left' length, length, digits, inductionHypothesis,
        decide_true, Bool.and_self]

theorem readHex_append (before : Nat) (first second : List Char) :
    readHex before (first ++ second) = readHex (readHex before first) second := by
  simp [readHex, filter_append, foldl_append]

theorem readHex_hexText (width value before : Nat) :
    readHex before (hexText width value) =
      before * 16 ^ width + value % 16 ^ width := by
  induction width generalizing value with
  | zero => simp [hexText, readHex, Nat.mod_one]
  | succ width inductionHypothesis =>
    obtain ⟨_, noDash, reads⟩ :=
      hexDigit_reads (Nat.mod_lt value (by decide : 16 > 0))
    have split_ : value % 16 ^ (width + 1) =
        16 * (value / 16 % 16 ^ width) + value % 16 := by
      rw [Nat.pow_succ', Nat.mod_mul, Nat.add_comm]
    rw [hexText, readHex_append, inductionHypothesis, split_]
    simp only [readHex, filter_cons, noDash, ne_eq, not_false_eq_true,
      decide_true, ↓reduceIte, filter_nil, foldl_cons,
      foldl_nil, reads, Option.getD_some, Nat.pow_succ]
    ring

/-- Grouped hex is read back as the value at all its widths. -/
theorem readHex_groupsText (widths : List Nat) (value before : Nat) :
    readHex before (groupsText widths value) =
      before * 16 ^ widths.sum + value % 16 ^ widths.sum := by
  induction widths generalizing before with
  | nil => simp [groupsText, readHex, Nat.mod_one]
  | cons width rest inductionHypothesis =>
    cases rest with
    | nil => simpa [groupsText] using readHex_hexText width value before
    | cons next rest =>
      have dash : readHex (readHex before
          (hexText width (value / 16 ^ (next :: rest).sum)))
          ('-' :: groupsText (next :: rest) value) =
        readHex (readHex before
          (hexText width (value / 16 ^ (next :: rest).sum)))
          (groupsText (next :: rest) value) := by
        simp [readHex]
      have split_ : value % 16 ^ (width :: next :: rest).sum =
          value % 16 ^ (next :: rest).sum + 16 ^ (next :: rest).sum *
            (value / 16 ^ (next :: rest).sum % 16 ^ width) := by
        rw [sum_cons, Nat.add_comm width, Nat.pow_add, Nat.mod_mul]
      have whole : 16 ^ (width :: next :: rest).sum =
          16 ^ width * 16 ^ (next :: rest).sum := by
        rw [sum_cons, Nat.pow_add]
      rw [groupsText, readHex_append, dash, inductionHypothesis,
        readHex_hexText, split_, whole]
      ring

end Digits

end Toolkit
