import HushOS.Toolkit.ScriptJson

namespace Toolkit

open List

namespace Script

/-!
# Reading JSON

A reader of JSON that takes every document: `parse_text`.  It reads a text unit
by unit, and as many parts as the text may have.
-/

/-- Whether a unit is white space. -/
def isSpace (unit : UInt16) : Bool :=
  unit = 32 || unit = 9 || unit = 10 || unit = 13

/-- Drop the white space a text begins with. -/
def skipGap (text : Text) : Text :=
  text.dropWhile isSpace

/-- The value of a hexadecimal digit. -/
def hexDigit? (unit : UInt16) : Option Nat :=
  if 48 ≤ unit.toNat ∧ unit.toNat ≤ 57 then some (unit.toNat - 48)
  else if 65 ≤ unit.toNat ∧ unit.toNat ≤ 70 then some (unit.toNat - 55)
  else if 97 ≤ unit.toNat ∧ unit.toNat ≤ 102 then some (unit.toNat - 87)
  else none

/-- The unit four hexadecimal digits name. -/
def hexUnit? (first second third fourth : UInt16) : Option UInt16 := do
  let a ← hexDigit? first
  let b ← hexDigit? second
  let c ← hexDigit? third
  let d ← hexDigit? fourth
  some (UInt16.ofNat (((a * 16 + b) * 16 + c) * 16 + d))

/-- The unit an escape of one letter stands for. -/
def escaped? (letter : UInt16) : Option UInt16 :=
  if letter = 34 then some 34
  else if letter = 92 then some 92
  else if letter = 47 then some 47
  else if letter = 98 then some 8
  else if letter = 102 then some 12
  else if letter = 110 then some 10
  else if letter = 114 then some 13
  else if letter = 116 then some 9
  else none

/-- Read a string after its first quote, up to its last. -/
def readText : Text → Option (Text × Text)
  | [] => none
  | unit :: rest =>
    if unit = 34 then
      some ([], rest)
    else if unit = 92 then
      match rest with
      | [] => none
      | letter :: later =>
        if letter = 117 then
          match later with
          | first :: second :: third :: fourth :: final => do
              let read ← hexUnit? first second third fourth
              let (others, left) ← readText final
              some (read :: others, left)
          | _ => none
        else do
          let read ← escaped? letter
          let (others, left) ← readText later
          some (read :: others, left)
    else if unit.toNat < 32 then
      none
    else do
      let (others, left) ← readText rest
      some (unit :: others, left)

/-- The value of a decimal digit. -/
def digit? (unit : UInt16) : Option (Fin 10) :=
  if 48 ≤ unit.toNat ∧ unit.toNat ≤ 57 then
    some (Fin.ofNat 10 (unit.toNat - 48))
  else
    none

/-- The digits a text begins with, and the rest. -/
def takeDigits : Text → List (Fin 10) × Text
  | [] => ([], [])
  | unit :: rest =>
    match digit? unit with
    | none => ([], unit :: rest)
    | some digit =>
      let (digits, left) := takeDigits rest
      (digit :: digits, left)

/-- Read the whole part of a number: after a zero no digit belongs to it. -/
def readWhole : Text → Option (Whole × Text)
  | [] => none
  | unit :: rest =>
    match digit? unit with
    | none => none
    | some digit =>
      if zero : digit = 0 then
        some (⟨⟨0, []⟩, fun _ => rfl⟩, rest)
      else
        let (digits, left) := takeDigits rest
        some (⟨⟨digit, digits⟩, fun same => absurd same zero⟩, left)

/-- Read digits, at least one. -/
def readDigits (text : Text) : Option (Digits × Text) :=
  match takeDigits text with
  | ([], _) => none
  | (first :: rest, left) => some (⟨first, rest⟩, left)

/-- Read a fraction, if the text goes on with one. -/
def readFraction : Text → Option (Option Digits × Text)
  | [] => some (none, [])
  | unit :: rest =>
    if unit = 46 then do
      let (digits, left) ← readDigits rest
      some (some digits, left)
    else
      some (none, unit :: rest)

/-- The sign a text begins with. -/
def splitSign : Text → Option Bool × Text
  | [] => (none, [])
  | unit :: rest =>
    if unit = 45 then (some true, rest)
    else if unit = 43 then (some false, rest)
    else (none, unit :: rest)

/-- Read an exponent, if the text goes on with one. -/
def readExponent : Text → Option (Option Exponent × Text)
  | [] => some (none, [])
  | unit :: rest =>
    if unit = 101 ∨ unit = 69 then do
      let (sign, unsigned) := splitSign rest
      let (digits, left) ← readDigits unsigned
      some (some ⟨decide (unit = 69), sign, digits⟩, left)
    else
      some (none, unit :: rest)

/-- Whether a text begins with a minus, and what follows it. -/
def splitMinus : Text → Bool × Text
  | [] => (false, [])
  | unit :: rest => if unit = 45 then (true, rest) else (false, unit :: rest)

/-- Read a number. -/
def readNumber (text : Text) : Option (Number × Text) := do
  let (negative, unsigned) := splitMinus text
  let (whole, afterWhole) ← readWhole unsigned
  let (fraction, afterFraction) ← readFraction afterWhole
  let (exponent, left) ← readExponent afterFraction
  some (⟨negative, whole, fraction, exponent⟩, left)

/-- Read a given word. -/
def readWord (word : Text) (value : Value) (text : Text) : Option (Value × Text) :=
  if word.isPrefixOf text then some (value, text.drop word.length) else none

mutual

/-- Read one value, `fuel` bounding how far its parts nest and follow. -/
def readValue : Nat → Text → Option (Value × Text)
  | 0, _ => none
  | fuel + 1, text =>
    match skipGap text with
    | [] => none
    | unit :: rest =>
      if unit = 34 then do
        let (read, left) ← readText rest
        some (.string read, left)
      else if unit = 91 then
        match skipGap rest with
        | 93 :: left => some (.array [], left)
        | _ => do
            let (items, left) ← readItems fuel rest
            some (.array items, left)
      else if unit = 123 then
        match skipGap rest with
        | 125 :: left => some (.object [], left)
        | _ => do
            let (fields, left) ← readFields fuel rest
            some (.object fields, left)
      else if unit = 110 then
        readWord [110, 117, 108, 108] .null (unit :: rest)
      else if unit = 116 then
        readWord [116, 114, 117, 101] (.bool true) (unit :: rest)
      else if unit = 102 then
        readWord [102, 97, 108, 115, 101] (.bool false) (unit :: rest)
      else do
        let (number, left) ← readNumber (unit :: rest)
        some (.number number, left)

/-- Read the items of an array up to its closing bracket. -/
def readItems : Nat → Text → Option (List Value × Text)
  | 0, _ => none
  | fuel + 1, text => do
      let (item, rest) ← readValue fuel text
      match skipGap rest with
      | 44 :: later => do
          let (items, left) ← readItems fuel later
          some (item :: items, left)
      | 93 :: left => some ([item], left)
      | _ => none

/-- Read the fields of an object up to its closing brace. -/
def readFields : Nat → Text → Option (List (Text × Value) × Text)
  | 0, _ => none
  | fuel + 1, text =>
    match skipGap text with
    | 34 :: afterQuote => do
        let (key, afterKey) ← readText afterQuote
        match skipGap afterKey with
        | 58 :: afterColon => do
            let (value, rest) ← readValue fuel afterColon
            match skipGap rest with
            | 44 :: later => do
                let (fields, left) ← readFields fuel later
                some ((key, value) :: fields, left)
            | 125 :: left => some ([(key, value)], left)
            | _ => none
        | _ => none
    | _ => none

end

/-- `JSON.parse`: the value of a text that is one value and white space. -/
def parse (text : Text) : Option Value := do
  let (value, rest) ← readValue (2 * text.length + 1) text
  match skipGap rest with
  | [] => some value
  | _ => none

/-- A text white space does not begin. -/
def Visible (text : Text) : Prop :=
  ∀ unit ∈ text.head?, isSpace unit = false

theorem skipGap_text
    {gap : Gap}
    {rest : Text}
    (visible : Visible rest) :
    skipGap (gap.text ++ rest) = rest := by
  induction gap with
  | nil =>
    cases rest with
    | nil => rfl
    | cons unit rest =>
      have kept : isSpace unit = false := visible unit rfl
      simp [skipGap, Gap.text, kept]
  | cons space gap inductionHypothesis =>
    have skipped : isSpace space.unit = true := by
      cases space with
      | blank => rfl
      | tab => rfl
      | newline => rfl
      | carriage => rfl
    rw [Gap.text, map_cons, cons_append, skipGap,
      dropWhile_cons, if_pos skipped]
    exact inductionHypothesis

theorem hexDigit?_unit (digit : HexDigit) :
    hexDigit? digit.unit = some digit.value.val := by
  obtain ⟨value, upper⟩ := digit
  revert value upper
  decide

theorem digit?_unit (digit : Fin 10) :
    digit? (digitUnit digit) = some digit := by
  revert digit
  decide

theorem digitUnit_range (digit : Fin 10) :
    48 ≤ (digitUnit digit).toNat ∧ (digitUnit digit).toNat ≤ 57 := by
  have small := digit.isLt
  rw [digitUnit, UInt16.toNat_ofNat']
  omega

theorem ne_of_range
    {unit mark : UInt16}
    {low high : Nat}
    (inside : low ≤ unit.toNat ∧ unit.toNat ≤ high)
    (outside : mark.toNat < low ∨ high < mark.toNat) :
    unit ≠ mark := by
  rintro rfl
  omega

theorem isSpace_of_range
    {unit : UInt16}
    (inside : 43 ≤ unit.toNat) :
    isSpace unit = false := by
  have apart (mark : UInt16) (small : mark.toNat < 43) : unit ≠ mark := by
    rintro rfl
    omega
  simp [isSpace, apart 32 (by decide), apart 9 (by decide), apart 10 (by decide),
    apart 13 (by decide)]

theorem escaped?_letter (escape : Escape) :
    escape.letter ≠ 117 ∧ escaped? escape.letter = some escape.unit := by
  cases escape with
  | _ => exact ⟨by decide, rfl⟩

/-- A literal's body is read back as what it decodes to. -/
theorem readText_body (literal : Literal) (rest : Text) :
    readText (literal.body ++ 34 :: rest) = some (literal.decoded, rest) := by
  induction literal with
  | nil =>
    change readText (34 :: rest) = _
    rw [readText.eq_def]
    rfl
  | cons piece later inductionHypothesis =>
    have shape : Literal.body (piece :: later) = piece.text ++ Literal.body later :=
      flatMap_cons
    rw [shape, append_assoc]
    cases piece with
    | raw unit plain =>
      obtain ⟨visible, notQuote, notSlash⟩ := plain
      change readText (unit :: (Literal.body later ++ 34 :: rest)) = _
      rw [readText.eq_def]
      simp only [notQuote, notSlash, Nat.not_lt.mpr visible, if_false,
        inductionHypothesis]
      rfl
    | escape letter =>
      obtain ⟨notHex, read⟩ := escaped?_letter letter
      change readText
        (92 :: letter.letter :: (Literal.body later ++ 34 :: rest)) = _
      rw [readText.eq_def]
      simp only [notHex, read, inductionHypothesis, if_false, if_true,
        show (92 : UInt16) ≠ 34 by decide]
      rfl
    | unicode first second third fourth =>
      change readText (92 :: 117 :: first.unit :: second.unit ::
        third.unit :: fourth.unit :: (Literal.body later ++ 34 :: rest)) = _
      rw [readText.eq_def]
      simp only [hexUnit?, hexDigit?_unit, inductionHypothesis, if_false,
        if_true, show (92 : UInt16) ≠ 34 by decide]
      rfl

/-- What does not go on with digits. -/
def Breaks (text : Text) : Prop :=
  ∀ unit ∈ text.head?, digit? unit = none

/-- What does not go on with a number. -/
def Stops (text : Text) : Prop :=
  ∀ unit ∈ text.head?, digit? unit = none ∧ unit ≠ 46 ∧ unit ≠ 101 ∧ unit ≠ 69

theorem Stops.breaks {text : Text} (stops : Stops text) : Breaks text :=
  fun unit head => (stops unit head).1

variable {rest : Text}

theorem takeDigits_map
    {digits : List (Fin 10)}
    (breaks : Breaks rest) :
    takeDigits (digits.map digitUnit ++ rest) = (digits, rest) := by
  induction digits with
  | nil =>
    cases rest with
    | nil => rfl
    | cons unit rest =>
      have none_ : digit? unit = none := breaks unit rfl
      rw [map_nil, nil_append, takeDigits, none_]
  | cons digit digits inductionHypothesis =>
    rw [map_cons, cons_append, takeDigits, digit?_unit,
      inductionHypothesis]

theorem readDigits_text
    {digits : Digits}
    (breaks : Breaks rest) :
    readDigits (digits.text ++ rest) = some (digits, rest) := by
  rw [readDigits, Digits.text, takeDigits_map breaks]
  rfl

theorem readWhole_text
    {whole : Whole}
    (breaks : Breaks rest) :
    readWhole (whole.digits.text ++ rest) = some (whole, rest) := by
  obtain ⟨⟨first, others⟩, leads⟩ := whole
  rw [Digits.text, Digits.all, map_cons, cons_append, readWhole,
    digit?_unit]
  by_cases zero : first = 0
  · have none_ := leads zero
    simp only at none_ zero
    subst zero none_
    simp
  · simp only [zero, dite_false, takeDigits_map breaks]

theorem readFraction_text
    {fraction : Option Digits}
    (breaks : Breaks rest)
    (noPoint : ∀ unit ∈ rest.head?, unit ≠ 46) :
    readFraction (fractionText fraction ++ rest) = some (fraction, rest) := by
  cases fraction with
  | none =>
    cases rest with
    | nil => rfl
    | cons unit rest =>
      have other : unit ≠ 46 := noPoint unit rfl
      rw [fractionText, nil_append, readFraction, if_neg other]
  | some digits =>
    rw [fractionText, cons_append, readFraction, if_pos rfl,
      readDigits_text breaks]
    rfl

/-- An exponent's text is read back. -/
theorem readExponent_text
    {exponent : Option Exponent}
    (stops : Stops rest) :
    readExponent (exponentText exponent ++ rest) = some (exponent, rest) := by
  cases exponent with
  | none =>
    cases rest with
    | nil => rfl
    | cons unit rest =>
      obtain ⟨_, _, notSmall, notLarge⟩ := stops unit rfl
      rw [exponentText, nil_append, readExponent,
        if_neg (not_or.mpr ⟨notSmall, notLarge⟩)]
  | some exponent =>
    obtain ⟨upper, sign, digits⟩ := exponent
    have unsigned : splitSign (digits.text ++ rest) =
        (none, digits.text ++ rest) := by
      obtain ⟨first, others⟩ := digits
      have range := digitUnit_range first
      rw [Digits.text, Digits.all, map_cons, cons_append, splitSign,
        if_neg (ne_of_range range (by decide)),
        if_neg (ne_of_range range (by decide))]
    have letter : (if upper then (69 : UInt16) else 101) = 101 ∨
        (if upper then (69 : UInt16) else 101) = 69 := by
      cases upper with
      | false => exact .inl rfl
      | true => exact .inr rfl
    have itsCase : decide ((if upper then (69 : UInt16) else 101) = 69) = upper := by
      cases upper with
      | false => rfl
      | true => rfl
    rw [exponentText, Exponent.text, cons_append, readExponent, if_pos letter,
      itsCase, append_assoc]
    cases sign with
    | none =>
      simp only [nil_append, unsigned, readDigits_text stops.breaks]
      rfl
    | some minus =>
      cases minus with
      | true =>
        simp only [singleton_append, splitSign, if_true,
          readDigits_text stops.breaks]
        rfl
      | false =>
        simp only [singleton_append, splitSign, if_true, if_false,
          show (43 : UInt16) ≠ 45 by decide,
          readDigits_text stops.breaks]
        rfl

theorem breaks_fraction
    {fraction : Option Digits}
    {exponent : Option Exponent}
    {rest : Text}
    (stops : Stops rest) :
    Breaks (fractionText fraction ++ (exponentText exponent ++ rest)) := by
  intro unit head
  cases fraction with
  | some digits =>
    obtain rfl := Option.some.inj head
    rfl
  | none =>
    cases exponent with
    | none => exact stops.breaks unit head
    | some exponent =>
      obtain rfl := Option.some.inj head
      cases exponent.upper with
      | false => rfl
      | true => rfl

theorem breaks_exponent
    {exponent : Option Exponent}
    {rest : Text}
    (stops : Stops rest) :
    Breaks (exponentText exponent ++ rest) ∧
      ∀ unit ∈ (exponentText exponent ++ rest).head?, unit ≠ 46 := by
  refine ⟨@breaks_fraction none exponent rest stops, fun unit head => ?_⟩
  cases exponent with
  | none => exact (stops unit head).2.1
  | some exponent =>
    obtain rfl := Option.some.inj head
    cases exponent.upper with
    | false => decide
    | true => decide

/-- A number's text is read back. -/
theorem readNumber_text
    {number : Number}
    {rest : Text}
    (stops : Stops rest) :
    readNumber (number.text ++ rest) = some (number, rest) := by
  obtain ⟨negative, whole, fraction, exponent⟩ := number
  have after := @breaks_exponent exponent rest stops
  have minus : splitMinus
      ((if negative then [45] else []) ++ (whole.digits.text ++
        (fractionText fraction ++ (exponentText exponent ++ rest)))) =
      (negative, whole.digits.text ++
        (fractionText fraction ++ (exponentText exponent ++ rest))) := by
    cases negative with
    | true => rfl
    | false =>
      obtain ⟨⟨first, others⟩, _⟩ := whole
      change splitMinus (digitUnit first :: _) = _
      rw [splitMinus, if_neg (ne_of_range (digitUnit_range first) (by decide))]
      rfl
  rw [Number.text, append_assoc, append_assoc, append_assoc,
    readNumber, minus]
  simp only [readWhole_text (breaks_fraction stops), bind, Option.bind,
    readFraction_text after.1 after.2, readExponent_text stops]

/-- How many parts are read one within or after another. -/
def Part.cost : {kind : Kind} → Part kind → Nat
  | _, .array items => items.cost + 1
  | _, .object fields => fields.cost + 1
  | _, .lastItem _ value _ => value.cost + 1
  | _, .item _ value _ rest => max value.cost rest.cost + 1
  | _, .lastField _ _ _ _ value _ => value.cost + 1
  | _, .field _ _ _ _ value _ rest => max value.cost rest.cost + 1
  | _, _ => 1

theorem head_number (number : Number) (rest : Text) :
    ∃ unit later, number.text ++ rest = unit :: later ∧
      45 ≤ unit.toNat ∧ unit.toNat ≤ 57 := by
  obtain ⟨negative, ⟨⟨first, others⟩, _⟩, fraction, exponent⟩ := number
  cases negative with
  | true => exact ⟨_, _, rfl, by decide⟩
  | false =>
    have range := digitUnit_range first
    exact ⟨digitUnit first, _, rfl, by omega⟩

theorem head_text (value : Part .value) (rest : Text) :
    ∃ unit later, value.text ++ rest = unit :: later ∧
      isSpace unit = false ∧ unit ≠ 93 := by
  cases value with
  | null => exact ⟨_, _, rfl, by decide⟩
  | bool value =>
    cases value with
    | true => exact ⟨_, _, rfl, by decide⟩
    | false => exact ⟨_, _, rfl, by decide⟩
  | number number =>
    obtain ⟨unit, later, shape, range⟩ := head_number number rest
    exact ⟨unit, later, shape,
      isSpace_of_range ((by decide : 43 ≤ 45).trans range.1),
      ne_of_range range (by decide)⟩
  | string literal => exact ⟨_, _, rfl, by decide⟩
  | emptyArray inside => exact ⟨_, _, rfl, by decide⟩
  | array items => exact ⟨_, _, rfl, by decide⟩
  | emptyObject inside => exact ⟨_, _, rfl, by decide⟩
  | object fields => exact ⟨_, _, rfl, by decide⟩

theorem visible_text (value : Part .value) (rest : Text) :
    Visible (value.text ++ rest) := by
  obtain ⟨unit, later, shape, visible, _⟩ := head_text value rest
  intro head isHead
  rw [shape] at isHead
  exact Option.some.inj isHead ▸ visible

theorem stops_gap
    {gap : Gap}
    {mark : UInt16}
    (ends : mark = 44 ∨ mark = 93 ∨ mark = 125) :
    Stops (gap.text ++ mark :: rest) := by
  intro unit head
  cases gap with
  | nil =>
    obtain rfl := Option.some.inj head
    rcases ends with rfl | rfl | rfl
    · decide
    · decide
    · decide
  | cons space gap =>
    obtain rfl := Option.some.inj head
    cases space with
    | _ => decide

theorem visible_mark
    {mark : UInt16}
    (shown : isSpace mark = false) :
    Visible (mark :: rest) :=
  fun _ head => Option.some.inj head ▸ shown

/-- What a part's reader makes of its text. -/
def Part.Reads : {kind : Kind} → Part kind → Prop
  | .value, part => ∀ fuel (gap : Gap) rest, part.cost ≤ fuel → Stops rest →
      readValue fuel (gap.text ++ (part.text ++ rest)) = some (part.meaning, rest)
  | .items, part => ∀ fuel rest, part.cost ≤ fuel →
      readItems fuel (part.text ++ rest) = some (part.meaning, rest)
  | .fields, part => ∀ fuel rest, part.cost ≤ fuel →
      readFields fuel (part.text ++ rest) = some (part.meaning, rest)

theorem readValue_gap
    {gap : Gap}
    {text : Text}
    (visible : Visible text)
    (fuel : Nat) :
    readValue (fuel + 1) (gap.text ++ text) = readValue (fuel + 1) text := by
  have itself : skipGap text = text := @skipGap_text [] text visible
  rw [readValue, readValue, skipGap_text visible, itself]

theorem readValue_number
    {number : Number}
    (stops : Stops rest)
    (fuel : Nat) :
    readValue (fuel + 1) (number.text ++ rest) = some (.number number, rest) := by
  have read := @readNumber_text number rest stops
  have itself := @skipGap_text [] _ (visible_text (.number number) rest)
  obtain ⟨unit, later, shape, range⟩ := head_number number rest
  have apart (mark : UInt16) (outside : mark.toNat < 45 ∨ 57 < mark.toNat) :
      unit ≠ mark := ne_of_range range outside
  change skipGap (number.text ++ rest) = number.text ++ rest at itself
  rw [shape] at read itself ⊢
  rw [readValue, itself]
  simp only [apart 34 (by decide), apart 91 (by decide), apart 123 (by decide),
    apart 110 (by decide), apart 116 (by decide), apart 102 (by decide),
    if_false, read]
  rfl

/-- Past its gap a part starts as its kind does. -/
theorem skipGap_part {kind : Kind} (part : Part kind) (rest : Text) :
    match kind with
    | .value => True
    | .items => ∃ unit later,
        skipGap (part.text ++ rest) = unit :: later ∧ unit ≠ 93
    | .fields => ∃ later, skipGap (part.text ++ rest) = 34 :: later := by
  cases part with
  | lastItem before value after =>
    obtain ⟨unit, later, shape, _, notEnd⟩ :=
      head_text value (after.text ++ [93] ++ rest)
    refine ⟨unit, later, ?_, notEnd⟩
    rw [Part.text, append_assoc, append_assoc,
      skipGap_text (visible_text value _), shape]
  | item before value after others =>
    obtain ⟨unit, later, shape, _, notEnd⟩ :=
      head_text value (after.text ++ 44 :: others.text ++ rest)
    refine ⟨unit, later, ?_, notEnd⟩
    rw [Part.text, append_assoc, append_assoc,
      skipGap_text (visible_text value _), shape]
  | lastField before key afterKey beforeValue value after =>
    change ∃ later, skipGap (before.text ++ (key.text ++ _) ++ rest) = _
    rw [append_assoc]
    exact ⟨_, skipGap_text (visible_mark rfl)⟩
  | field before key afterKey beforeValue value after others =>
    change ∃ later, skipGap (before.text ++ (key.text ++ _) ++ rest) = _
    rw [append_assoc]
    exact ⟨_, skipGap_text (visible_mark rfl)⟩
  | _ => trivial

theorem readValue_array
    {items : Part .items}
    {fuel : Nat}
    (read : readItems fuel (items.text ++ rest) = some (items.meaning, rest)) :
    readValue (fuel + 1) ((Part.array items).text ++ rest) =
      some (.array items.meaning, rest) := by
  obtain ⟨unit, later, shape, notEnd⟩ := skipGap_part items rest
  change readValue (fuel + 1) (91 :: (items.text ++ rest)) = _
  rw [readValue]
  have itself : skipGap (91 :: (items.text ++ rest)) = 91 :: (items.text ++ rest) :=
    rfl
  rw [itself]
  simp only [show (91 : UInt16) ≠ 34 by decide, if_false, if_true, shape]
  split
  · next ends => exact absurd (List.cons.inj ends).1 notEnd
  · rw [read]
    rfl

theorem readValue_object
    {fields : Part .fields}
    {fuel : Nat}
    (read : readFields fuel (fields.text ++ rest) = some (fields.meaning, rest)) :
    readValue (fuel + 1) ((Part.object fields).text ++ rest) =
      some (.object fields.meaning, rest) := by
  obtain ⟨later, shape⟩ := skipGap_part fields rest
  change readValue (fuel + 1) (123 :: (fields.text ++ rest)) = _
  rw [readValue]
  have itself : skipGap (123 :: (fields.text ++ rest)) =
      123 :: (fields.text ++ rest) :=
    rfl
  rw [itself]
  simp only [show (123 : UInt16) ≠ 34 by decide,
    show (123 : UInt16) ≠ 91 by decide, if_false, if_true, shape, read]
  rfl

theorem reads_of_text
    {part : Part .value}
    (once : part.cost = 1)
    (read : ∀ fuel rest, Stops rest →
      readValue (fuel + 1) (part.text ++ rest) = some (part.meaning, rest)) :
    part.Reads := by
  intro fuel gap rest enough stops
  rw [once] at enough
  obtain ⟨more, rfl⟩ := Nat.exists_eq_add_of_le' enough
  rw [readValue_gap (visible_text part rest)]
  exact read more rest stops

/-- Every part of the grammar is read back as what it means. -/
theorem reads {kind : Kind} (part : Part kind) : part.Reads := by
  induction part with
  | null => exact reads_of_text rfl fun _ _ _ => rfl
  | bool value =>
    cases value with
    | true => exact reads_of_text rfl fun _ _ _ => rfl
    | false => exact reads_of_text rfl fun _ _ _ => rfl
  | number number =>
    exact reads_of_text rfl fun fuel _ stops => readValue_number stops fuel
  | string literal =>
    refine reads_of_text rfl fun fuel rest _ => ?_
    have shape : (Part.string literal).text ++ rest =
        34 :: (literal.body ++ 34 :: rest) := by
      rw [Part.text, Literal.text, cons_append, append_assoc,
        singleton_append]
    have itself : skipGap (34 :: (literal.body ++ 34 :: rest)) =
        34 :: (literal.body ++ 34 :: rest) :=
      rfl
    rw [shape, readValue, itself]
    simp only [if_true, readText_body]
    rfl
  | emptyArray inside =>
    refine reads_of_text rfl fun fuel rest _ => ?_
    have shape : (Part.emptyArray inside).text ++ rest =
        91 :: (inside.text ++ 93 :: rest) := by
      rw [Part.text, cons_append, append_assoc, singleton_append]
    have itself : skipGap (91 :: (inside.text ++ 93 :: rest)) =
        91 :: (inside.text ++ 93 :: rest) :=
      rfl
    rw [shape, readValue, itself]
    simp only [show (91 : UInt16) ≠ 34 by decide, if_false, if_true,
      @skipGap_text inside (93 :: rest) (visible_mark rfl)]
    rfl
  | array items inductionHypothesis =>
    intro fuel gap rest enough _
    obtain ⟨more, rfl⟩ := Nat.exists_eq_add_of_le'
      (le_trans (Nat.le_add_left 1 _) enough)
    rw [readValue_gap (visible_text (.array items) rest)]
    exact readValue_array
      (inductionHypothesis more rest (Nat.le_of_succ_le_succ enough))
  | emptyObject inside =>
    refine reads_of_text rfl fun fuel rest _ => ?_
    have shape : (Part.emptyObject inside).text ++ rest =
        123 :: (inside.text ++ 125 :: rest) := by
      rw [Part.text, cons_append, append_assoc, singleton_append]
    have itself : skipGap (123 :: (inside.text ++ 125 :: rest)) =
        123 :: (inside.text ++ 125 :: rest) :=
      rfl
    rw [shape, readValue, itself]
    simp only [show (123 : UInt16) ≠ 34 by decide,
      show (123 : UInt16) ≠ 91 by decide, if_false, if_true,
      @skipGap_text inside (125 :: rest) (visible_mark rfl)]
    rfl
  | object fields inductionHypothesis =>
    intro fuel gap rest enough _
    obtain ⟨more, rfl⟩ := Nat.exists_eq_add_of_le'
      (le_trans (Nat.le_add_left 1 _) enough)
    rw [readValue_gap (visible_text (.object fields) rest)]
    exact readValue_object
      (inductionHypothesis more rest (Nat.le_of_succ_le_succ enough))
  | lastItem before value after inductionHypothesis =>
    intro fuel rest enough
    obtain ⟨more, rfl⟩ := Nat.exists_eq_add_of_le'
      (le_trans (Nat.le_add_left 1 _) enough)
    have read := inductionHypothesis more before (after.text ++ 93 :: rest)
      (Nat.le_of_succ_le_succ enough) (stops_gap (.inr (.inl rfl)))
    rw [Part.text, append_assoc, append_assoc, append_assoc,
      singleton_append, readItems, read]
    simp only [bind, Option.bind]
    rw [skipGap_text (visible_mark rfl)]
    rfl
  | item before value after others valueHypothesis restHypothesis =>
    intro fuel rest enough
    obtain ⟨more, rfl⟩ := Nat.exists_eq_add_of_le'
      (le_trans (Nat.le_add_left 1 _) enough)
    have within := Nat.le_of_succ_le_succ enough
    have read := valueHypothesis more before
      (after.text ++ 44 :: (others.text ++ rest))
      ((le_max_left _ _).trans within) (stops_gap (.inl rfl))
    have readRest := restHypothesis more rest ((le_max_right _ _).trans within)
    rw [Part.text, append_assoc, append_assoc, append_assoc,
      cons_append, readItems, read]
    simp only [bind, Option.bind]
    rw [skipGap_text (visible_mark rfl)]
    simp only [readRest]
    rfl
  | lastField before key afterKey beforeValue value after inductionHypothesis =>
    intro fuel rest enough
    obtain ⟨more, rfl⟩ := Nat.exists_eq_add_of_le'
      (le_trans (Nat.le_add_left 1 _) enough)
    have read := inductionHypothesis more beforeValue (after.text ++ 125 :: rest)
      (Nat.le_of_succ_le_succ enough) (stops_gap (.inr (.inr rfl)))
    have shape : (Part.lastField before key afterKey beforeValue value
          after).text ++ rest =
        before.text ++ 34 :: (key.body ++ 34 :: (afterKey.text ++ 58 ::
          (beforeValue.text ++ (value.text ++ (after.text ++ 125 :: rest))))) := by
      simp [Part.text, Literal.text]
    rw [shape, readFields, skipGap_text (visible_mark rfl)]
    simp only [readText_body, bind, Option.bind]
    rw [skipGap_text (visible_mark rfl)]
    simp only [read]
    rw [skipGap_text (visible_mark rfl)]
    rfl
  | field before key afterKey beforeValue value after others valueHypothesis
      restHypothesis =>
      intro fuel rest enough
      obtain ⟨more, rfl⟩ := Nat.exists_eq_add_of_le'
        (le_trans (Nat.le_add_left 1 _) enough)
      have within := Nat.le_of_succ_le_succ enough
      have read := valueHypothesis more beforeValue
        (after.text ++ 44 :: (others.text ++ rest))
        ((le_max_left _ _).trans within) (stops_gap (.inl rfl))
      have readRest := restHypothesis more rest ((le_max_right _ _).trans within)
      have shape : (Part.field before key afterKey beforeValue value after
            others).text ++ rest =
          before.text ++ 34 :: (key.body ++ 34 :: (afterKey.text ++ 58 ::
            (beforeValue.text ++ (value.text ++
              (after.text ++ 44 :: (others.text ++ rest)))))) := by
        simp [Part.text, Literal.text]
      rw [shape, readFields, skipGap_text (visible_mark rfl)]
      simp only [readText_body, bind, Option.bind]
      rw [skipGap_text (visible_mark rfl)]
      simp only [read]
      rw [skipGap_text (visible_mark rfl)]
      simp only [readRest]
      rfl

/-- Reading a part costs at most twice its length. -/
theorem cost_le {kind : Kind} (part : Part kind) :
    part.cost ≤ 2 * part.text.length := by
  induction part with
  | null => decide
  | bool value =>
    cases value with
    | true => decide
    | false => decide
  | number number =>
    obtain ⟨unit, later, shape, _⟩ := head_number number []
    rw [append_nil] at shape
    change 1 ≤ 2 * number.text.length
    rw [shape, length_cons]
    omega
  | string literal =>
    change 1 ≤ 2 * literal.text.length
    rw [Literal.text, length_cons]
    omega
  | emptyArray inside =>
    change 1 ≤ 2 * (91 :: (inside.text ++ [93])).length
    rw [length_cons]
    omega
  | array items inductionHypothesis =>
    change items.cost + 1 ≤ 2 * (91 :: items.text).length
    rw [length_cons]
    omega
  | emptyObject inside =>
    change 1 ≤ 2 * (123 :: (inside.text ++ [125])).length
    rw [length_cons]
    omega
  | object fields inductionHypothesis =>
    change fields.cost + 1 ≤ 2 * (123 :: fields.text).length
    rw [length_cons]
    omega
  | lastItem before value after inductionHypothesis =>
    simp only [Part.cost, Part.text, length_append, length_cons,
      length_nil]
    omega
  | item before value after others valueHypothesis restHypothesis =>
    simp only [Part.cost, Part.text, length_append, length_cons]
    omega
  | lastField before key afterKey beforeValue value after inductionHypothesis =>
    simp only [Part.cost, Part.text, length_append, length_cons,
      length_nil]
    omega
  | field before key afterKey beforeValue value after others valueHypothesis
      restHypothesis =>
      simp only [Part.cost, Part.text, length_append, length_cons]
      omega

/-- Every document of the grammar is parsed to its meaning. -/
theorem parse_text (document : Document) :
    parse document.text = some document.value.meaning := by
  obtain ⟨before, value, after⟩ := document
  have stops : Stops after.text := by
    cases after with
    | nil => exact fun _ head => nomatch head
    | cons space gap =>
      intro unit head
      obtain rfl := Option.some.inj head
      cases space with
      | _ => decide
  have enough : value.cost ≤
      2 * (Document.text ⟨before, value, after⟩).length + 1 := by
    have within := cost_le value
    simp only [Document.text, length_append]
    omega
  have read := reads value _ before after.text enough stops
  have ended := @skipGap_text after [] (fun _ head => nomatch head)
  rw [append_nil] at ended
  rw [parse]
  change (readValue _ (before.text ++ (value.text ++ after.text))).bind _ = _
  rw [read]
  simp only [Option.bind, ended]
  rfl

end Script

end Toolkit
