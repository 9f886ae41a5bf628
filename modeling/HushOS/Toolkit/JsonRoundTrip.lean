import HushOS.Toolkit.Json

namespace Toolkit

open List

namespace Json

/-!
# Compact JSON reads back

A plain value whose texts need no escape and whose numbers are safe is read
back from its compact form, whatever may follow it.  The bound on the reader's
work is met by twice the length of the text.
-/

/-- A character written as itself. -/
def PlainChar (char : Char) : Prop :=
  32 ≤ char.toNat ∧ char ≠ '"' ∧ char ≠ '\\'

mutual

/-- A plain value that is written without an escape and reads back exactly. -/
def Plain.Printable : Plain → Prop
  | .text value => ∀ char ∈ value.toList, PlainChar char
  | .number value => value ≤ maxSafe
  | .list items => ItemsPrintable items

/-- Plain values that are all printable. -/
def ItemsPrintable : List Plain → Prop
  | [] => True
  | item :: rest => item.Printable ∧ ItemsPrintable rest

end

mutual

/-- A plain value as a JSON value. -/
def Plain.value : Plain → Value
  | .text value => .string value
  | .number value => .natural value
  | .list items => .array (itemValues items)

/-- Plain values as JSON values. -/
def itemValues : List Plain → List Value
  | [] => []
  | item :: rest => item.value :: itemValues rest

end

mutual

/-- How much work reading a plain value back may take. -/
def Plain.cost : Plain → Nat
  | .text _ => 1
  | .number _ => 1
  | .list items => 1 + itemsCost items

/-- How much work reading a list of items back may take. -/
def itemsCost : List Plain → Nat
  | [] => 0
  | [item] => 1 + item.cost
  | item :: next :: rest => 1 + max item.cost (itemsCost (next :: rest))

end

/-- What may follow a value: nothing that would continue a number. -/
def Stops : List Char → Prop
  | [] => True
  | char :: _ =>
    char.isDigit = false ∧ char ≠ '.' ∧ char ≠ 'e' ∧ char ≠ 'E'

variable {char : Char} {rest : List Char}

theorem skipSpaces_of_not_space
    (kept : isSpace char = false) :
    skipSpaces (char :: rest) = char :: rest := by
  simp [skipSpaces, kept]

theorem isSpace_of_isDigit
    (digit : char.isDigit = true) :
    isSpace char = false := by
  simp only [isSpace, Bool.or_eq_false_iff, decide_eq_false_iff_not]
  refine ⟨⟨⟨?_, ?_⟩, ?_⟩, ?_⟩ <;>
    (rintro rfl; revert digit; decide)

theorem escape_of_plain
    (plain : PlainChar char) :
    escape char = [char] := by
  obtain ⟨visible, notQuote, notSlash⟩ := plain
  have low (other : Char) (small : other.toNat < 32) : char ≠ other := by
    rintro rfl
    omega
  have := low (Char.ofNat 8) (by decide)
  have := low (Char.ofNat 12) (by decide)
  have := low '\n' (by decide)
  have := low '\r' (by decide)
  have := low '\t' (by decide)
  have : ¬ char.toNat < 32 := by omega
  simp [escape, *]

theorem flatMap_escape
    {chars : List Char}
    (plain : ∀ char ∈ chars, PlainChar char) :
    chars.flatMap escape = chars := by
  induction chars with
  | nil =>
    rfl
  | cons char rest inductionHypothesis =>
    rw [flatMap_cons, escape_of_plain (plain char (by simp)),
      inductionHypothesis
        (fun later member => plain later (by simp [member]))]
    rfl

/-- Plain characters are read back up to the quote. -/
theorem readText_plain
    {chars rest : List Char}
    (plain : ∀ char ∈ chars, PlainChar char)
    {fuel : Nat}
    (enough : chars.length < fuel) :
    readText fuel (chars ++ '"' :: rest) = some (chars, rest) := by
  induction chars generalizing fuel with
  | nil =>
    obtain ⟨more, rfl⟩ : ∃ more, fuel = more + 1 :=
      ⟨fuel - 1, by simp at enough; omega⟩
    simp [readText]
  | cons char others inductionHypothesis =>
    obtain ⟨more, rfl⟩ : ∃ more, fuel = more + 1 :=
      ⟨fuel - 1, by simp at enough; omega⟩
    obtain ⟨visible, notQuote, notSlash⟩ := plain char (by simp)
    have restRead :=
      inductionHypothesis
        (fun later member => plain later (by simp [member]))
        (show others.length < more by simpa using enough)
    have shown : ¬ char.toNat < 32 := by omega
    rw [cons_append]
    unfold readText
    split <;> simp_all

theorem roundHalfEven_one (value : Nat) :
    roundHalfEven value 1 = value := by
  simp [roundHalfEven, Nat.mod_one]

theorem nearestNatural_safe
    {value : Nat}
    (safe : value ≤ maxSafe) :
    nearestNatural value 1 = some value := by
  have small : ¬ 2 ^ 53 ≤ value := by
    simp only [maxSafe] at safe
    omega
  by_cases zero : value = 0
  · simp [nearestNatural, zero]
  · simp only [nearestNatural, zero, ↓reduceIte, Nat.div_one, small,
      roundHalfEven_one, Nat.mul_mod_left, true_and,
      Nat.mul_div_cancel _ (Nat.two_pow_pos _), safe]

theorem splitDigits_append
    {digits rest : List Char}
    (allDigits : ∀ char ∈ digits, char.isDigit = true)
    (stops : Stops rest) :
    splitDigits (digits ++ rest) = (digits, rest) := by
  have restKept : rest.span Char.isDigit = ([], rest) := by
    cases rest with
    | nil =>
      rfl
    | cons char later =>
      simp [span_eq_takeWhile_dropWhile, stops.1]
  unfold splitDigits
  rw [span_eq_takeWhile_dropWhile] at restKept ⊢
  obtain ⟨noneTaken, allDropped⟩ := Prod.mk.inj restKept
  rw [takeWhile_append_of_pos allDigits,
    dropWhile_append_of_pos allDigits, noneTaken, allDropped]
  simp

/-- A decimal starts with a digit, zero only for zero. -/
theorem toDigits_head
    (value : Nat) :
    ∃ char others,
      Nat.toDigits 10 value = char :: others ∧
        char.isDigit = true ∧
        (char = '0' → others = []) := by
  induction value using Nat.strong_induction_on with
  | _ value inductionHypothesis =>
    by_cases small : value < 10
    · refine ⟨value.digitChar, [], Nat.toDigits_of_lt_base small, ?_, ?_⟩
      · exact Nat.isDigit_of_mem_toDigits
          (b := 10) (n := value) (by decide) (by decide)
          (by rw [Nat.toDigits_of_lt_base small]; simp)
      · intro _
        rfl
    · obtain ⟨char, others, shape, digit, noZero⟩ :=
        inductionHypothesis (value / 10) (by omega)
      have longer :
          Nat.toDigits 10 value =
            char :: (others ++ [(value % 10).digitChar]) := by
        rw [Nat.toDigits_of_base_le (by decide) (by omega), shape]
        rfl
      refine ⟨char, _, longer, digit, ?_⟩
      intro isZero
      have restEmpty := noZero isZero
      subst isZero restEmpty
      have quotientZero : value / 10 = 0 := by
        have read :=
          Nat.ofDigitChars_toDigits
            (b := 10) (n := value / 10) (by decide) (by decide)
        rw [shape] at read
        simpa [Nat.ofDigitChars] using read.symm
      omega

theorem integerPart_toDigits
    (value : Nat)
    (stops : Stops rest) :
    integerPart (Nat.toDigits 10 value ++ rest) =
      some (Nat.toDigits 10 value, rest) := by
  obtain ⟨char, others, shape, digit, noZero⟩ := toDigits_head value
  have allDigits :
      ∀ later ∈ Nat.toDigits 10 value, later.isDigit = true :=
    fun later member =>
      Nat.isDigit_of_mem_toDigits (by decide) (by decide) member
  have split := splitDigits_append allDigits stops
  rw [shape] at split ⊢
  rw [cons_append] at split ⊢
  unfold integerPart
  split
  · next same =>
      obtain ⟨rfl, rfl⟩ := List.cons.inj same
      simp [noZero rfl]
  · next same =>
      obtain ⟨rfl, rfl⟩ := List.cons.inj same
      simp [digit, split]
  · next same =>
      simp at same

/-- A safe integer's digits are read back as it. -/
theorem readNumber_toDigits
    {value : Nat}
    (safe : value ≤ maxSafe)
    (stops : Stops rest) :
    readNumber (Nat.toDigits 10 value ++ rest) =
      some (.natural value, rest) := by
  obtain ⟨char, others, shape, digit, _⟩ := toDigits_head value
  have unsigned :
      splitSign (Nat.toDigits 10 value ++ rest) =
        (false, Nat.toDigits 10 value ++ rest) := by
    rw [shape, cons_append]
    unfold splitSign
    split
    · next same =>
        rw [(List.cons.inj same).1] at digit
        exact absurd digit (by decide)
    · rfl
  have noFraction : fractionPart rest = some ([], rest) := by
    cases rest with
    | nil =>
      rfl
    | cons first later =>
      unfold fractionPart
      split
      · next same =>
          exact (stops.2.1 (List.cons.inj same).1).elim
      · rfl
  have noExponent : exponentPart rest = some (0, rest) := by
    cases rest with
    | nil =>
      rfl
    | cons first later =>
      simp [exponentPart, stops.2.2.1, stops.2.2.2]
  have readBack : Nat.ofDigitChars 10 (Nat.toDigits 10 value) 0 = value :=
    Nat.ofDigitChars_toDigits (by decide) (by decide)
  unfold readNumber
  rw [unsigned]
  simp [integerPart_toDigits value stops, noFraction, noExponent,
    numberValue, readBack, nearestNatural_safe safe]

theorem readValue_of_digit
    (fuel : Nat)
    (rest : List Char)
    (digit : char.isDigit = true) :
    readValue (fuel + 1) (char :: rest) = readNumber (char :: rest) := by
  unfold readValue
  rw [skipSpaces_of_not_space (isSpace_of_isDigit digit)]
  split <;> simp_all

theorem compact_head
    (plain : Plain) :
    ∃ char others,
      compact plain = char :: others ∧ isSpace char = false ∧ char ≠ ']' := by
  cases plain with
  | text value =>
    exact ⟨'"', _, rfl, by decide, by decide⟩
  | number value =>
    obtain ⟨char, others, shape, digit, _⟩ := toDigits_head value
    refine ⟨char, others, shape, isSpace_of_isDigit digit, ?_⟩
    rintro rfl
    revert digit
    decide
  | list items =>
    exact ⟨'[', _, rfl, by decide, by decide⟩

theorem compactItems_head
    {item : Plain}
    {rest : List Plain} :
    ∃ char others,
      compactItems (item :: rest) = char :: others ∧
        isSpace char = false ∧ char ≠ ']' := by
  obtain ⟨char, others, shape, kept, notClose⟩ := compact_head item
  cases rest with
  | nil =>
    exact ⟨char, others, shape, kept, notClose⟩
  | cons next later =>
    exact ⟨char, _, by rw [compactItems, shape]; rfl, kept, notClose⟩

mutual

/-- A compact value is read back as itself. -/
theorem readValue_compact
    (plain : Plain)
    (printable : plain.Printable)
    (rest : List Char)
    (stops : Stops rest)
    (fuel : Nat)
    (enough : plain.cost ≤ fuel) :
    readValue fuel (compact plain ++ rest) = some (plain.value, rest) := by
  cases plain with
  | text value =>
    obtain ⟨more, rfl⟩ : ∃ more, fuel = more + 1 :=
      ⟨fuel - 1, by simp [Plain.cost] at enough; omega⟩
    have written :
        compact (.text value) ++ rest =
          '"' :: (value.toList ++ '"' :: rest) := by
      simp [compact, flatMap_escape printable]
    have read :=
      @readText_plain value.toList rest printable
        ((value.toList ++ '"' :: rest).length + 1)
        (by simp only [length_append, length_cons]; omega)
    rw [written]
    unfold readValue
    rw [skipSpaces_of_not_space (by decide)]
    simp only [read]
    simp [Plain.value]
  | number value =>
    obtain ⟨more, rfl⟩ : ∃ more, fuel = more + 1 :=
      ⟨fuel - 1, by simp [Plain.cost] at enough; omega⟩
    obtain ⟨char, others, shape, digit, _⟩ := toDigits_head value
    have read := readNumber_toDigits printable stops
    rw [compact]
    rw [shape, cons_append] at read ⊢
    rw [readValue_of_digit _ _ digit, read]
    rfl
  | list items =>
    obtain ⟨more, rfl⟩ : ∃ more, fuel = more + 1 :=
      ⟨fuel - 1, by simp [Plain.cost] at enough; omega⟩
    have written :
        compact (.list items) ++ rest =
          '[' :: (compactItems items ++ ']' :: rest) := by
      simp [compact]
    rw [written]
    unfold readValue
    rw [skipSpaces_of_not_space (by decide)]
    cases items with
    | nil =>
      simp [compactItems, skipSpaces_of_not_space, isSpace,
        Plain.value, itemValues]
    | cons item others =>
      have read :=
        readItems_compactItems (item :: others) (by simp) printable
          rest more (by simp only [Plain.cost] at enough; omega)
      obtain ⟨char, later, shape, kept, notClose⟩ :=
        @compactItems_head item others
      have skipped :
          skipSpaces (compactItems (item :: others) ++ ']' :: rest) =
            char :: (later ++ ']' :: rest) := by
        rw [shape]
        exact skipSpaces_of_not_space kept
      simp only [skipped, read]
      split
      · next same =>
          exact (notClose (List.cons.inj same).1).elim
      · simp [Plain.value]

/-- Compact items are read back as themselves. -/
theorem readItems_compactItems
    (items : List Plain)
    (nonempty : items ≠ [])
    (printable : ItemsPrintable items)
    (rest : List Char)
    (fuel : Nat)
    (enough : itemsCost items ≤ fuel) :
    readItems fuel (compactItems items ++ ']' :: rest) =
      some (itemValues items, rest) := by
  match items, nonempty with
  | [item], _ =>
    obtain ⟨more, rfl⟩ : ∃ more, fuel = more + 1 :=
      ⟨fuel - 1, by simp [itemsCost] at enough; omega⟩
    have read :=
      readValue_compact item printable.1 (']' :: rest)
        (by simp [Stops]) more
        (by simp only [itemsCost] at enough; omega)
    simp [readItems, compactItems, read, itemValues,
      skipSpaces_of_not_space, isSpace]
  | item :: next :: others, _ =>
    obtain ⟨more, rfl⟩ : ∃ more, fuel = more + 1 :=
      ⟨fuel - 1, by simp [itemsCost] at enough; omega⟩
    have read :=
      readValue_compact item printable.1
        (',' :: (compactItems (next :: others) ++ ']' :: rest))
        (by simp [Stops]) more
        (by simp only [itemsCost] at enough; omega)
    have restRead :=
      readItems_compactItems (next :: others) (by simp) printable.2
        rest more (by simp only [itemsCost] at enough; omega)
    simp [readItems, compactItems, read, restRead, itemValues,
      skipSpaces_of_not_space, isSpace]

end

mutual

theorem cost_le_length
    (plain : Plain) :
    plain.cost ≤ 2 * (compact plain).length := by
  cases plain with
  | text value =>
    simp only [Plain.cost, compact, length_cons, length_append]
    omega
  | number value =>
    have := Nat.length_toDigits_pos (b := 10) (n := value)
    simp only [Plain.cost, compact]
    omega
  | list items =>
    have := itemsCost_le_length items
    simp only [Plain.cost, compact, length_cons, length_append]
    omega

theorem itemsCost_le_length
    (items : List Plain) :
    itemsCost items ≤ 2 * (compactItems items).length + 1 := by
  match items with
  | [] =>
    simp [itemsCost]
  | [item] =>
    have := cost_le_length item
    simp only [itemsCost, compactItems]
    omega
  | item :: next :: rest =>
    have := cost_le_length item
    have := itemsCost_le_length (next :: rest)
    simp only [itemsCost, compactItems, length_append,
      length_cons]
    omega

end

theorem parse_compact
    {plain : Plain}
    (printable : plain.Printable) :
    parse (compact plain) = some plain.value := by
  have read :=
    readValue_compact plain printable [] trivial
      (2 * (compact plain).length + 1)
      (by have := cost_le_length plain; omega)
  rw [append_nil] at read
  simp [parse, read, skipSpaces]

mutual

theorem plain?_value
    (plain : Plain) :
    plain.value.plain? = some plain := by
  cases plain with
  | text value =>
    rfl
  | number value =>
    rfl
  | list items =>
    simp [Plain.value, Value.plain?, plainItems?_itemValues items]

theorem plainItems?_itemValues
    (items : List Plain) :
    plainItems? (itemValues items) = some items := by
  match items with
  | [] =>
    rfl
  | item :: rest =>
    simp [itemValues, plainItems?, plain?_value item,
      plainItems?_itemValues rest]

end

theorem parse_compact_plain
    {plain : Plain}
    (printable : plain.Printable) :
    (parse (compact plain)).bind Value.plain? = some plain := by
  rw [parse_compact printable, Option.bind_some, plain?_value]

end Json

end Toolkit
