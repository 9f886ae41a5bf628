import HushOS.Toolkit.JsonRoundTrip

namespace Toolkit

namespace Serde

/-!
# A stricter JSON reader

The second reader of JSON texts, as `serde_json` documents it: integers are
kept as 64-bit ones, with or without sign, and any other number as a float; a
lone surrogate and a value nested past the recursion limit are refused.  What
both readers take of compact JSON is the same: `fromSlice_compact`.
-/

open Json List

/-- A number as read: in 64 bits without sign, with one, or a float. -/
inductive Number where
  | posInt (value : Nat)
  | negInt (magnitude : Nat)
  | float

/-- What a JSON text holds. -/
inductive Value where
  | null
  | bool (value : Bool)
  | number (value : Number)
  | string (value : String)
  | array (items : List Value)
  | object (fields : List (String × Value))

/-- The largest 64-bit integer without sign. -/
def maxU64 : Nat := 2 ^ 64 - 1

/-- The levels a value may nest, the outermost included. -/
def recursionLimit : Nat := 128

/-- An integer from its sign and digits; `-0` is a float. -/
def integerValue (negative : Bool) (digits : List Char) : Number :=
  let magnitude := Nat.ofDigitChars 10 digits 0
  if negative then
    if magnitude = 0 ∨ 2 ^ 63 < magnitude then .float else .negInt magnitude
  else
    if magnitude ≤ maxU64 then .posInt magnitude else .float

/-- Read a number: an integer unless a point or an exponent follows. -/
def readNumber (chars : List Char) : Option (Number × List Char) := do
  let (negative, unsigned) := splitSign chars
  let (whole, afterWhole) ← integerPart unsigned
  let (_, afterFraction) ← fractionPart afterWhole
  let (_, rest) ← exponentPart afterFraction
  if rest.length = afterWhole.length then
    some (integerValue negative whole, rest)
  else
    some (.float, rest)

/-- The character after `\u`: a unit, or two surrogates that make one. -/
def readUnicode (chars : List Char) : Option (Char × List Char) := do
  let (unit, rest) ← readUnit chars
  if isHigh unit then
    match rest with
    | '\\' :: 'u' :: later => do
        let (second, afterPair) ← readUnit later
        if isLow second then
          some (Char.ofNat
            (0x10000 + (unit - 0xD800) * 0x400 + (second - 0xDC00)),
            afterPair)
        else
          none
    | _ => none
  else if isLow unit then
    none
  else
    some (Char.ofNat unit, rest)

/-- Read the characters of a text up to its closing quote. -/
def readText : Nat → List Char → Option (List Char × List Char)
  | 0, _ => none
  | fuel + 1, chars =>
    match chars with
    | [] => none
    | '"' :: rest => some ([], rest)
    | '\\' :: 'u' :: rest => do
        let (char, afterChar) ← readUnicode rest
        let (later, final) ← readText fuel afterChar
        some (char :: later, final)
    | '\\' :: letter :: rest => do
        let char ← readEscape letter
        let (later, final) ← readText fuel rest
        some (char :: later, final)
    | char :: rest =>
      if char.toNat < 32 ∨ char = '\\' then
        none
      else do
        let (later, final) ← readText fuel rest
        some (char :: later, final)

mutual

/--
Read one value, `fuel` bounding how far its parts nest and follow and `depth`
how many more levels may be opened, the last never.
-/
def readValue : Nat → Nat → List Char → Option (Value × List Char)
  | 0, _, _ => none
  | fuel + 1, depth, chars =>
    match skipSpaces chars with
    | 'n' :: 'u' :: 'l' :: 'l' :: rest => some (.null, rest)
    | 't' :: 'r' :: 'u' :: 'e' :: rest => some (.bool true, rest)
    | 'f' :: 'a' :: 'l' :: 's' :: 'e' :: rest => some (.bool false, rest)
    | '"' :: rest => do
        let (found, later) ← readText (rest.length + 1) rest
        some (.string (String.ofList found), later)
    | '[' :: rest =>
      if depth ≤ 1 then
        none
      else
        match skipSpaces rest with
        | ']' :: later => some (.array [], later)
        | _ => do
            let (items, later) ← readItems fuel (depth - 1) rest
            some (.array items, later)
    | '{' :: rest =>
      if depth ≤ 1 then
        none
      else
        match skipSpaces rest with
        | '}' :: later => some (.object [], later)
        | _ => do
            let (fields, later) ← readFields fuel (depth - 1) rest
            some (.object fields, later)
    | other => do
        let (number, rest) ← readNumber other
        some (.number number, rest)

/-- Read the items of an array up to its closing bracket. -/
def readItems : Nat → Nat → List Char → Option (List Value × List Char)
  | 0, _, _ => none
  | fuel + 1, depth, chars => do
      let (item, rest) ← readValue fuel depth chars
      match skipSpaces rest with
      | ',' :: later => do
          let (items, final) ← readItems fuel depth later
          some (item :: items, final)
      | ']' :: later => some ([item], later)
      | _ => none

/-- Read the fields of an object up to its closing brace. -/
def readFields :
    Nat → Nat → List Char → Option (List (String × Value) × List Char)
  | 0, _, _ => none
  | fuel + 1, depth, chars =>
    match skipSpaces chars with
    | '"' :: afterQuote => do
        let (name, afterName) ← readText (afterQuote.length + 1) afterQuote
        match skipSpaces afterName with
        | ':' :: afterColon => do
            let (value, rest) ← readValue fuel depth afterColon
            match skipSpaces rest with
            | ',' :: later => do
                let (fields, final) ← readFields fuel depth later
                some ((String.ofList name, value) :: fields, final)
            | '}' :: later => some ([(String.ofList name, value)], later)
            | _ => none
        | _ => none
    | _ => none

end

/-- The value bytes hold, when the whole of them is one JSON value. -/
def fromSlice (bytes : Bytes) : Option Value := do
  let chars ← Utf8.decode bytes
  let (value, rest) ←
    readValue (2 * chars.length + 1) recursionLimit chars
  match skipSpaces rest with
  | [] => some value
  | _ => none

mutual

/-- The plain value a value is, when it is one. -/
def Value.plain? : Value → Option Plain
  | .number (.posInt value) => some (.number value)
  | .string value => some (.text value)
  | .array items => (plainItems? items).map .list
  | _ => none

/-- The plain values a list of values holds, when all are plain. -/
def plainItems? : List Value → Option (List Plain)
  | [] => some []
  | item :: rest =>
    match item.plain?, plainItems? rest with
    | some plain, some others => some (plain :: others)
    | _, _ => none

end

mutual

/-- A plain value as this reader reads it. -/
def ofPlain : Plain → Value
  | .text value => .string value
  | .number value => .number (.posInt value)
  | .list items => .array (ofItems items)

/-- Plain values as this reader reads them. -/
def ofItems : List Plain → List Value
  | [] => []
  | item :: rest => ofPlain item :: ofItems rest

end

mutual

/-- How many lists a plain value nests. -/
def height : Plain → Nat
  | .text _ => 0
  | .number _ => 0
  | .list items => 1 + itemsHeight items

/-- How many lists the deepest of some plain values nests. -/
def itemsHeight : List Plain → Nat
  | [] => 0
  | item :: rest => max (height item) (itemsHeight rest)

end

/-- Plain characters are read back up to the quote. -/
theorem readText_plain
    {chars rest : List Char}
    (plain : ∀ char ∈ chars, PlainChar char)
    {fuel : Nat}
    (enough : chars.length < fuel) :
    readText fuel (chars ++ '"' :: rest) = some (chars, rest) := by
  induction chars generalizing fuel with
  | nil =>
    obtain ⟨more, rfl⟩ : ∃ more, fuel = more + 1 :=
      ⟨fuel - 1, by simp at enough; omega⟩
    simp [readText]
  | cons char others inductionHypothesis =>
    obtain ⟨more, rfl⟩ : ∃ more, fuel = more + 1 :=
      ⟨fuel - 1, by simp at enough; omega⟩
    obtain ⟨visible, notQuote, notSlash⟩ := plain char (by simp)
    have notLow : ¬ char.toNat < 32 := by
      omega
    have restRead := @inductionHypothesis
      (fun later member => plain later (by simp [member])) more
      (by simp only [length_cons] at enough; omega)
    unfold readText
    rw [cons_append]
    split
    · next same =>
        simp at same
    · next same =>
        exact absurd (List.cons.inj same).1 notQuote
    · next same =>
        exact absurd (List.cons.inj same).1 notSlash
    · next same =>
        exact absurd (List.cons.inj same).1 notSlash
    · next same =>
        obtain ⟨rfl, rfl⟩ := List.cons.inj same
        simp [notLow, notSlash, restRead]

/-- A 64-bit integer's digits are read back as it. -/
theorem readNumber_toDigits
    {value : Nat}
    (small : value ≤ maxU64)
    {rest : List Char}
    (stops : Stops rest) :
    readNumber (Nat.toDigits 10 value ++ rest) =
      some (.posInt value, rest) := by
  obtain ⟨char, others, shape, digit, _⟩ := toDigits_head value
  have unsigned :
      splitSign (Nat.toDigits 10 value ++ rest) =
        (false, Nat.toDigits 10 value ++ rest) := by
    rw [shape, cons_append]
    unfold splitSign
    split
    · next same =>
        rw [(List.cons.inj same).1] at digit
        exact absurd digit (by decide)
    · rfl
  have noFraction : fractionPart rest = some ([], rest) := by
    cases rest with
    | nil =>
      rfl
    | cons first later =>
      unfold fractionPart
      split
      · next same =>
          exact (stops.2.1 (List.cons.inj same).1).elim
      · rfl
  have noExponent : exponentPart rest = some (0, rest) := by
    cases rest with
    | nil =>
      rfl
    | cons first later =>
      simp [exponentPart, stops.2.2.1, stops.2.2.2]
  have readBack : Nat.ofDigitChars 10 (Nat.toDigits 10 value) 0 = value :=
    Nat.ofDigitChars_toDigits (by decide) (by decide)
  unfold readNumber
  rw [unsigned]
  simp [integerPart_toDigits value stops, noFraction, noExponent,
    integerValue, readBack, small]

theorem readValue_of_digit
    (fuel depth : Nat)
    {char : Char}
    (rest : List Char)
    (digit : char.isDigit = true) :
    readValue (fuel + 1) depth (char :: rest) =
      (readNumber (char :: rest)).map fun (number, rest) =>
        (.number number, rest) := by
  unfold readValue
  rw [skipSpaces_of_not_space (isSpace_of_isDigit digit)]
  split <;> simp_all [Option.map_eq_bind]

mutual

/-- A compact value within the depth is read back as itself. -/
theorem readValue_compact
    (plain : Plain)
    (printable : plain.Printable)
    (rest : List Char)
    (stops : Stops rest)
    (fuel depth : Nat)
    (enough : plain.cost ≤ fuel)
    (shallow : height plain < depth) :
    readValue fuel depth (compact plain ++ rest) =
      some (ofPlain plain, rest) := by
  cases plain with
  | text value =>
    obtain ⟨more, rfl⟩ : ∃ more, fuel = more + 1 :=
      ⟨fuel - 1, by simp [Plain.cost] at enough; omega⟩
    have written :
        compact (.text value) ++ rest =
          '"' :: (value.toList ++ '"' :: rest) := by
      simp [compact, flatMap_escape printable]
    have read :=
      @readText_plain value.toList rest printable
        ((value.toList ++ '"' :: rest).length + 1)
        (by simp only [length_append, length_cons]; omega)
    rw [written]
    unfold readValue
    rw [skipSpaces_of_not_space (by decide)]
    simp only [read]
    simp [ofPlain]
  | number value =>
    obtain ⟨more, rfl⟩ : ∃ more, fuel = more + 1 :=
      ⟨fuel - 1, by simp [Plain.cost] at enough; omega⟩
    obtain ⟨char, others, shape, digit, _⟩ := toDigits_head value
    have safe : value ≤ maxSafe := printable
    have small : value ≤ maxU64 := safe.trans (by decide)
    have read := readNumber_toDigits small stops
    rw [compact]
    rw [shape, cons_append] at read ⊢
    rw [readValue_of_digit _ _ _ digit, read]
    rfl
  | list items =>
    obtain ⟨more, rfl⟩ : ∃ more, fuel = more + 1 :=
      ⟨fuel - 1, by simp [Plain.cost] at enough; omega⟩
    simp only [height] at shallow
    have deep : ¬ depth ≤ 1 := by
      omega
    have written :
        compact (.list items) ++ rest =
          '[' :: (compactItems items ++ ']' :: rest) := by
      simp [compact]
    rw [written]
    unfold readValue
    rw [skipSpaces_of_not_space (by decide)]
    simp only [deep, ↓reduceIte]
    cases items with
    | nil =>
      simp [compactItems, skipSpaces_of_not_space, isSpace, ofPlain,
        ofItems]
    | cons item others =>
      have read :=
        readItems_compactItems (item :: others) (by simp) printable
          rest more (depth - 1)
          (by simp only [Plain.cost] at enough; omega) (by omega)
      obtain ⟨char, later, shape, kept, notClose⟩ :=
        @compactItems_head item others
      have skipped :
          skipSpaces (compactItems (item :: others) ++ ']' :: rest) =
            char :: (later ++ ']' :: rest) := by
        rw [shape]
        exact skipSpaces_of_not_space kept
      simp only [skipped, read]
      split
      · next same =>
          exact (notClose (List.cons.inj same).1).elim
      · simp [ofPlain]

/-- Compact items within the depth are read back as themselves. -/
theorem readItems_compactItems
    (items : List Plain)
    (nonempty : items ≠ [])
    (printable : ItemsPrintable items)
    (rest : List Char)
    (fuel depth : Nat)
    (enough : itemsCost items ≤ fuel)
    (shallow : itemsHeight items < depth) :
    readItems fuel depth (compactItems items ++ ']' :: rest) =
      some (ofItems items, rest) := by
  match items, nonempty with
  | [item], _ =>
    obtain ⟨more, rfl⟩ : ∃ more, fuel = more + 1 :=
      ⟨fuel - 1, by simp [itemsCost] at enough; omega⟩
    simp only [itemsHeight] at shallow
    have read :=
      readValue_compact item printable.1 (']' :: rest)
        (by simp [Stops]) more depth
        (by simp only [itemsCost] at enough; omega) (by omega)
    simp [readItems, compactItems, read, ofItems,
      skipSpaces_of_not_space, isSpace]
  | item :: next :: others, _ =>
    obtain ⟨more, rfl⟩ : ∃ more, fuel = more + 1 :=
      ⟨fuel - 1, by simp [itemsCost] at enough; omega⟩
    have heights : height item < depth ∧
        itemsHeight (next :: others) < depth := by
      rw [itemsHeight] at shallow
      omega
    have read :=
      readValue_compact item printable.1
        (',' :: (compactItems (next :: others) ++ ']' :: rest))
        (by simp [Stops]) more depth
        (by simp only [itemsCost] at enough; omega) heights.1
    have restRead :=
      readItems_compactItems (next :: others) (by simp) printable.2
        rest more depth (by simp only [itemsCost] at enough; omega)
        heights.2
    simp [readItems, compactItems, read, restRead, ofItems,
      skipSpaces_of_not_space, isSpace]

end

theorem fromSlice_compact
    {plain : Plain}
    (printable : plain.Printable)
    (shallow : height plain < recursionLimit) :
    fromSlice (Utf8.encode (compact plain)) = some (ofPlain plain) := by
  have read :=
    readValue_compact plain printable [] trivial
      (2 * (compact plain).length + 1) recursionLimit
      (by have := cost_le_length plain; omega) shallow
  rw [append_nil] at read
  simp [fromSlice, Utf8.decode_encode, read, skipSpaces]

mutual

theorem plain?_ofPlain
    (plain : Plain) :
    (ofPlain plain).plain? = some plain := by
  cases plain with
  | text value =>
    rfl
  | number value =>
    rfl
  | list items =>
    simp [ofPlain, Value.plain?, plainItems?_ofItems items]

theorem plainItems?_ofItems
    (items : List Plain) :
    plainItems? (ofItems items) = some items := by
  match items with
  | [] =>
    rfl
  | item :: rest =>
    simp [ofItems, plainItems?, plain?_ofPlain item,
      plainItems?_ofItems rest]

end

mutual

theorem ofPlain_of_plain?
    (value : Value)
    (plain : Plain)
    (isPlain : value.plain? = some plain) :
    value = ofPlain plain := by
  match value with
  | .null | .bool _ | .object _ | .number (.negInt _) | .number .float =>
    simp [Value.plain?] at isPlain
  | .number (.posInt found) =>
    simp only [Value.plain?, Option.some.injEq] at isPlain
    subst isPlain
    rfl
  | .string found =>
    simp only [Value.plain?, Option.some.injEq] at isPlain
    subst isPlain
    rfl
  | .array items =>
    simp only [Value.plain?, Option.map_eq_some_iff] at isPlain
    obtain ⟨plains, arePlain, rfl⟩ := isPlain
    rw [ofPlain, ofItems_of_plainItems? items plains arePlain]

theorem ofItems_of_plainItems?
    (items : List Value)
    (plains : List Plain)
    (arePlain : plainItems? items = some plains) :
    items = ofItems plains := by
  match items with
  | [] =>
    simp only [plainItems?, Option.some.injEq] at arePlain
    subst arePlain
    rfl
  | item :: rest =>
    simp only [plainItems?] at arePlain
    split at arePlain
    · next plain others isPlain areOthers =>
        rw [Option.some.injEq] at arePlain
        subst arePlain
        rw [ofItems, ← ofPlain_of_plain? item plain isPlain,
          ← ofItems_of_plainItems? rest others areOthers]
    · simp at arePlain

end

end Serde

end Toolkit
