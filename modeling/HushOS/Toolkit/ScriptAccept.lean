import HushOS.Toolkit.ScriptParse

namespace Toolkit

open List

namespace Script

/-!
# What the reader takes

Whatever the reader takes is the text of a document that means what was read:
`exists_document`.  Each token is taken apart first, then values, items and
fields together, by how far they nest.  So what a text holds, its objects' keys
and its strings, can be said of the value it is read as: `objects_meaning` and
`strings_meaning`.
-/

variable {unit : UInt16} {text left : Text}

theorem exists_space
    (space : isSpace unit = true) :
    ∃ space : Space, space.unit = unit := by
  simp only [isSpace, Bool.or_eq_true, decide_eq_true_eq] at space
  rcases space with ((rfl | rfl) | rfl) | rfl
  · exact ⟨.blank, rfl⟩
  · exact ⟨.tab, rfl⟩
  · exact ⟨.newline, rfl⟩
  · exact ⟨.carriage, rfl⟩

theorem exists_gap (text : Text) : ∃ gap : Gap, text = gap.text ++ skipGap text := by
  induction text with
  | nil => exact ⟨[], rfl⟩
  | cons unit rest inductionHypothesis =>
    rw [skipGap, dropWhile_cons]
    split
    · next isSpace =>
        obtain ⟨space, rfl⟩ := exists_space isSpace
        obtain ⟨gap, split⟩ := inductionHypothesis
        refine ⟨space :: gap, ?_⟩
        rw [skipGap] at split
        rw [Gap.text, map_cons, cons_append]
        exact congrArg _ split
    · exact ⟨[], rfl⟩

theorem eq_ofNat_of_toNat
    {value : Nat}
    (same : unit.toNat = value) :
    UInt16.ofNat value = unit := by
  rw [← same, UInt16.ofNat_toNat]

/-- A unit read as a hex digit is one. -/
theorem exists_hexDigit
    {value : Nat}
    (read : hexDigit? unit = some value) :
    ∃ digit : HexDigit, digit.unit = unit ∧ digit.value.val = value := by
  rw [hexDigit?] at read
  split at read
  · next decimal =>
      cases read
      refine ⟨⟨⟨unit.toNat - 48, by omega⟩, false⟩, ?_, rfl⟩
      rw [HexDigit.unit, if_pos (show unit.toNat - 48 < 10 by omega)]
      exact eq_ofNat_of_toNat (by simp only; omega)
  · split at read
    · next upper =>
        cases read
        refine ⟨⟨⟨unit.toNat - 55, by omega⟩, true⟩, ?_, rfl⟩
        rw [HexDigit.unit, if_neg (show ¬ unit.toNat - 55 < 10 by omega), if_pos rfl]
        exact eq_ofNat_of_toNat (by simp only; omega)
    · split at read
      · next lower =>
          cases read
          refine ⟨⟨⟨unit.toNat - 87, by omega⟩, false⟩, ?_, rfl⟩
          rw [HexDigit.unit, if_neg (show ¬ unit.toNat - 87 < 10 by omega),
            if_neg Bool.false_ne_true]
          exact eq_ofNat_of_toNat (by simp only; omega)
      · cases read

/-- A letter read as an escape is one. -/
theorem exists_escape
    {letter unit : UInt16}
    (read : escaped? letter = some unit) :
    ∃ escape : Escape, escape.letter = letter ∧ escape.unit = unit := by
  rw [escaped?] at read
  split at read
  · next isLetter => exact ⟨.quote, isLetter.symm, Option.some.inj read⟩
  split at read
  · next isLetter => exact ⟨.backslash, isLetter.symm, Option.some.inj read⟩
  split at read
  · next isLetter => exact ⟨.slash, isLetter.symm, Option.some.inj read⟩
  split at read
  · next isLetter => exact ⟨.backspace, isLetter.symm, Option.some.inj read⟩
  split at read
  · next isLetter => exact ⟨.formFeed, isLetter.symm, Option.some.inj read⟩
  split at read
  · next isLetter => exact ⟨.newline, isLetter.symm, Option.some.inj read⟩
  split at read
  · next isLetter => exact ⟨.carriage, isLetter.symm, Option.some.inj read⟩
  split at read
  · next isLetter => exact ⟨.tab, isLetter.symm, Option.some.inj read⟩
  · cases read

theorem exists_unicode
    {first second third fourth unit : UInt16}
    (read : hexUnit? first second third fourth = some unit) :
    ∃ piece : Piece, piece.text = [92, 117, first, second, third, fourth] ∧
      piece.unit = unit := by
  simp only [hexUnit?, Option.bind_eq_bind, Option.bind_eq_some_iff] at read
  obtain ⟨a, readFirst, b, readSecond, c, readThird, d, readFourth, made⟩ := read
  obtain ⟨one, rfl, rfl⟩ := exists_hexDigit readFirst
  obtain ⟨two, rfl, rfl⟩ := exists_hexDigit readSecond
  obtain ⟨three, rfl, rfl⟩ := exists_hexDigit readThird
  obtain ⟨four, rfl, rfl⟩ := exists_hexDigit readFourth
  exact ⟨.unicode one two three four, rfl, Option.some.inj made⟩

theorem body_cons (piece : Piece) (literal : Literal) :
    Literal.body (piece :: literal) = piece.text ++ literal.body :=
  flatMap_cons

/-- A text read up to its quote is a literal's body. -/
theorem exists_literal
    {text read left : Text}
    (taken : readText text = some (read, left)) :
    ∃ literal : Literal, text = literal.body ++ 34 :: left ∧
      literal.decoded = read := by
  fun_induction readText text generalizing read left with
  | case1 => cases taken
  | case2 rest =>
    cases taken
    exact ⟨[], rfl, rfl⟩
  | case3 => cases taken
  | case4 notQuote first second third fourth final inductionHypothesis =>
    simp only [Option.bind_eq_bind, Option.bind_eq_some_iff] at taken
    obtain ⟨unit, named, ⟨others, after⟩, later, made⟩ := taken
    obtain ⟨piece, text, rfl⟩ := exists_unicode named
    obtain ⟨literal, rfl, rfl⟩ := inductionHypothesis later
    cases made
    refine ⟨piece :: literal, ?_, rfl⟩
    rw [body_cons, text]
    rfl
  | case5 => cases taken
  | case6 notQuote later letter notHex inductionHypothesis =>
    simp only [Option.bind_eq_bind, Option.bind_eq_some_iff] at taken
    obtain ⟨unit, named, ⟨others, after⟩, later, made⟩ := taken
    obtain ⟨escape, rfl, rfl⟩ := exists_escape named
    obtain ⟨literal, rfl, rfl⟩ := inductionHypothesis later
    cases made
    exact ⟨.escape escape :: literal, by rw [body_cons]; rfl, rfl⟩
  | case7 => cases taken
  | case8 unit rest notQuote notSlash visible inductionHypothesis =>
    simp only [Option.bind_eq_bind, Option.bind_eq_some_iff] at taken
    obtain ⟨⟨others, after⟩, later, made⟩ := taken
    obtain ⟨literal, rfl, rfl⟩ := inductionHypothesis later
    cases made
    have plain : Raw unit := ⟨Nat.not_lt.mp visible, notQuote, notSlash⟩
    exact ⟨.raw unit plain :: literal, by rw [body_cons]; rfl, rfl⟩

theorem digitUnit_of_digit?
    {digit : Fin 10}
    (read : digit? unit = some digit) :
    digitUnit digit = unit := by
  rw [digit?] at read
  split at read
  · next range =>
      cases read
      refine eq_ofNat_of_toNat ?_
      simp only [Fin.ofNat]
      omega
  · cases read

theorem eq_of_takeDigits (text : Text) :
    text = (takeDigits text).1.map digitUnit ++ (takeDigits text).2 := by
  induction text with
  | nil => rfl
  | cons unit rest inductionHypothesis =>
    rw [takeDigits]
    cases read : digit? unit with
    | none => rfl
    | some digit =>
      simp only [map_cons, cons_append, digitUnit_of_digit? read]
      exact congrArg _ inductionHypothesis

theorem eq_of_readWhole
    {whole : Whole}
    (taken : readWhole text = some (whole, left)) :
    text = whole.digits.text ++ left := by
  cases text with
  | nil => cases taken
  | cons unit rest =>
    rw [readWhole] at taken
    split at taken
    · cases taken
    · next digit read =>
        split at taken
        · next zero =>
            cases taken
            rw [← digitUnit_of_digit? read, zero]
            rfl
        · next notZero =>
            cases taken
            rw [← digitUnit_of_digit? read]
            exact congrArg _ (eq_of_takeDigits rest)

theorem eq_of_readDigits
    {digits : Digits}
    (taken : readDigits text = some (digits, left)) :
    text = digits.text ++ left := by
  have split := eq_of_takeDigits text
  rw [readDigits] at taken
  split at taken
  · cases taken
  · next first rest after shape =>
      cases taken
      rw [shape] at split
      exact split

theorem eq_of_readFraction
    {fraction : Option Digits}
    (taken : readFraction text = some (fraction, left)) :
    text = fractionText fraction ++ left := by
  cases text with
  | nil =>
    cases taken
    rfl
  | cons unit rest =>
    rw [readFraction] at taken
    split at taken
    · next point =>
        simp only [Option.bind_eq_bind, Option.bind_eq_some_iff] at taken
        obtain ⟨⟨digits, after⟩, read, made⟩ := taken
        cases made
        rw [point, eq_of_readDigits read]
        rfl
    · cases taken
      rfl

theorem eq_of_splitSign (text : Text) :
    text = (match (splitSign text).1 with
      | none => []
      | some true => [45]
      | some false => [43]) ++ (splitSign text).2 := by
  cases text with
  | nil => rfl
  | cons unit rest =>
    rw [splitSign]
    by_cases minus : unit = 45
    · rw [if_pos minus, minus]
      rfl
    · rw [if_neg minus]
      by_cases plus : unit = 43
      · rw [if_pos plus, plus]
        rfl
      · rw [if_neg plus]
        rfl

/-- What is read as an exponent is one. -/
theorem eq_of_readExponent
    {exponent : Option Exponent}
    (taken : readExponent text = some (exponent, left)) :
    text = exponentText exponent ++ left := by
  cases text with
  | nil =>
    cases taken
    rfl
  | cons unit rest =>
    rw [readExponent] at taken
    split at taken
    · next letter =>
        simp only [Option.bind_eq_bind, Option.bind_eq_some_iff] at taken
        obtain ⟨⟨digits, after⟩, read, made⟩ := taken
        cases made
        have signed := eq_of_splitSign rest
        rw [eq_of_readDigits read] at signed
        have itself : (if decide (unit = 69) then (69 : UInt16) else 101) = unit := by
          rcases letter with rfl | rfl
          · rfl
          · rfl
        rw [exponentText, Exponent.text, itself, cons_append, append_assoc]
        exact congrArg _ signed
    · cases taken
      rfl

theorem eq_of_splitMinus (text : Text) :
    text = (if (splitMinus text).1 then [45] else []) ++ (splitMinus text).2 := by
  cases text with
  | nil => rfl
  | cons unit rest =>
    rw [splitMinus]
    split
    · next minus =>
        rw [minus]
        rfl
    · rfl

theorem eq_of_readNumber
    {number : Number}
    (taken : readNumber text = some (number, left)) :
    text = number.text ++ left := by
  simp only [readNumber, Option.bind_eq_bind, Option.bind_eq_some_iff] at taken
  obtain ⟨⟨whole, afterWhole⟩, readWhole, ⟨fraction, afterFraction⟩, readFraction,
    ⟨exponent, after⟩, readExponent, made⟩ := taken
  cases made
  have signed := eq_of_splitMinus text
  have afterSign := eq_of_readWhole readWhole
  have afterDigits := eq_of_readFraction readFraction
  have afterPoint := eq_of_readExponent readExponent
  simp only at afterSign afterDigits afterPoint
  rw [afterSign, afterDigits, afterPoint] at signed
  simp only [Number.text, append_assoc]
  exact signed

theorem eq_of_readWord
    {word text left : Text}
    {value read : Value}
    (taken : readWord word value text = some (read, left)) :
    text = word ++ left ∧ read = value := by
  rw [readWord] at taken
  split at taken
  · next isPrefix =>
      cases taken
      obtain ⟨rest, rfl⟩ := isPrefixOf_iff_prefix.mp isPrefix
      exact ⟨by rw [drop_left], rfl⟩
  · cases taken

mutual

/-- What is read as a value is a part of the grammar. -/
theorem exists_value :
    ∀ {fuel : Nat} {text left : Text} {value : Value},
      readValue fuel text = some (value, left) →
      ∃ gap : Gap, ∃ part : Part .value,
        text = gap.text ++ (part.text ++ left) ∧ part.meaning = value
  | 0, text, left, value, taken => by
    rw [readValue] at taken
    cases taken
  | fuel + 1, text, left, value, taken => by
    obtain ⟨gap, apart⟩ := exists_gap text
    rw [apart]
    suffices accepted : ∃ part : Part .value,
        skipGap text = part.text ++ left ∧ part.meaning = value by
      obtain ⟨part, shape, meaning⟩ := accepted
      exact ⟨gap, part, by rw [shape], meaning⟩
    rw [readValue] at taken
    split at taken
    · cases taken
    next unit rest shape =>
    rw [shape]
    split at taken
    · next quote =>
        simp only [Option.bind_eq_bind, Option.bind_eq_some_iff] at taken
        obtain ⟨⟨read, after⟩, readText, made⟩ := taken
        cases made
        obtain ⟨literal, rfl, rfl⟩ := exists_literal readText
        refine ⟨.string literal, ?_, rfl⟩
        rw [quote]
        simp [Part.text, Literal.text]
    split at taken
    · next bracket =>
        obtain ⟨inside, apartInside⟩ := exists_gap rest
        split at taken
        · next after closed =>
            cases taken
            rw [closed] at apartInside
            refine ⟨.emptyArray inside, ?_, rfl⟩
            rw [bracket, apartInside]
            simp [Part.text]
        · simp only [Option.bind_eq_bind, Option.bind_eq_some_iff] at taken
          obtain ⟨⟨items, after⟩, readItems, made⟩ := taken
          cases made
          obtain ⟨part, rfl, rfl⟩ := exists_items_of_read readItems
          exact ⟨.array part, by rw [bracket]; rfl, rfl⟩
    split at taken
    · next brace =>
        obtain ⟨inside, apartInside⟩ := exists_gap rest
        split at taken
        · next after closed =>
            cases taken
            rw [closed] at apartInside
            refine ⟨.emptyObject inside, ?_, rfl⟩
            rw [brace, apartInside]
            simp [Part.text]
        · simp only [Option.bind_eq_bind, Option.bind_eq_some_iff] at taken
          obtain ⟨⟨fields, after⟩, readFields, made⟩ := taken
          cases made
          obtain ⟨part, rfl, rfl⟩ := exists_fields_of_read readFields
          exact ⟨.object part, by rw [brace]; rfl, rfl⟩
    split at taken
    · obtain ⟨written, rfl⟩ := eq_of_readWord taken
      exact ⟨.null, written, rfl⟩
    split at taken
    · obtain ⟨written, rfl⟩ := eq_of_readWord taken
      exact ⟨.bool true, written, rfl⟩
    split at taken
    · obtain ⟨written, rfl⟩ := eq_of_readWord taken
      exact ⟨.bool false, written, rfl⟩
    · simp only [Option.bind_eq_bind, Option.bind_eq_some_iff] at taken
      obtain ⟨⟨number, after⟩, readNumber, made⟩ := taken
      cases made
      exact ⟨.number number, eq_of_readNumber readNumber, rfl⟩

/-- What is read as items is a part of the grammar. -/
theorem exists_items_of_read :
    ∀ {fuel : Nat} {text left : Text} {items : List Value},
      readItems fuel text = some (items, left) →
      ∃ part : Part .items, text = part.text ++ left ∧ part.meaning = items
  | 0, text, left, items, taken => by
    rw [readItems] at taken
    cases taken
  | fuel + 1, text, left, items, taken => by
    simp only [readItems, Option.bind_eq_bind, Option.bind_eq_some_iff] at taken
    obtain ⟨⟨item, rest⟩, readValue, ends⟩ := taken
    obtain ⟨before, value, rfl, rfl⟩ := exists_value readValue
    obtain ⟨after, apart⟩ := exists_gap rest
    simp only at ends
    split at ends
    · next later comma =>
        simp only [Option.bind_eq_some_iff] at ends
        obtain ⟨⟨others, final⟩, readItems, made⟩ := ends
        cases made
        obtain ⟨part, rfl, rfl⟩ := exists_items_of_read readItems
        refine ⟨.item before value after part, ?_, rfl⟩
        rw [apart, comma]
        simp [Part.text]
    · next final closed =>
        cases ends
        refine ⟨.lastItem before value after, ?_, rfl⟩
        rw [apart, closed]
        simp [Part.text]
    · cases ends

/-- What is read as fields is a part of the grammar. -/
theorem exists_fields_of_read :
    ∀ {fuel : Nat} {text left : Text} {fields : List (Text × Value)},
      readFields fuel text = some (fields, left) →
      ∃ part : Part .fields, text = part.text ++ left ∧ part.meaning = fields
  | 0, text, left, fields, taken => by
    rw [readFields] at taken
    cases taken
  | fuel + 1, text, left, fields, taken => by
    obtain ⟨before, apart⟩ := exists_gap text
    rw [readFields] at taken
    split at taken
    case h_2 => cases taken
    next afterQuote quote =>
    simp only [Option.bind_eq_bind, Option.bind_eq_some_iff] at taken
    obtain ⟨⟨read, rest⟩, readText, ends⟩ := taken
    obtain ⟨key, rfl, rfl⟩ := exists_literal readText
    obtain ⟨afterKey, apartKey⟩ := exists_gap rest
    simp only at ends
    split at ends
    case h_2 => cases ends
    next afterColon colon =>
    simp only [Option.bind_eq_some_iff] at ends
    obtain ⟨⟨meant, left⟩, readValue, ends⟩ := ends
    obtain ⟨beforeValue, value, rfl, rfl⟩ := exists_value readValue
    obtain ⟨after, apartValue⟩ := exists_gap left
    simp only at ends
    split at ends
    · next later comma =>
        simp only [Option.bind_eq_some_iff] at ends
        obtain ⟨⟨others, final⟩, readFields, made⟩ := ends
        cases made
        obtain ⟨part, rfl, rfl⟩ := exists_fields_of_read readFields
        refine ⟨.field before key afterKey beforeValue value after part, ?_, rfl⟩
        rw [apart, quote, apartKey, colon, apartValue, comma]
        simp [Part.text, Literal.text]
    · next final closed =>
        cases ends
        refine ⟨.lastField before key afterKey beforeValue value after, ?_, rfl⟩
        rw [apart, quote, apartKey, colon, apartValue, closed]
        simp [Part.text, Literal.text]
    · cases ends

end

/-- What is parsed is a document of the grammar. -/
theorem exists_document
    {text : Text}
    {value : Value}
    (taken : parse text = some value) :
    ∃ document : Document, document.text = text ∧
      document.value.meaning = value := by
  simp only [parse, Option.bind_eq_bind, Option.bind_eq_some_iff] at taken
  obtain ⟨⟨meant, rest⟩, read, ends⟩ := taken
  obtain ⟨before, part, rfl, rfl⟩ := exists_value read
  obtain ⟨after, apart⟩ := exists_gap rest
  simp only at ends
  split at ends
  · next nothing =>
      cases ends
      rw [nothing, append_nil] at apart
      exact ⟨⟨before, part, after⟩, by rw [Document.text, apart], rfl⟩
  · cases ends

mutual

/-- The keys of each object in a value. -/
def Value.objects : Value → List (List Text)
  | .array items => objectsOfItems items
  | .object fields => fields.map Prod.fst :: objectsOfFields fields
  | _ => []

/-- The keys of each object in some values. -/
def objectsOfItems : List Value → List (List Text)
  | [] => []
  | item :: rest => item.objects ++ objectsOfItems rest

/-- The keys of each object in the values of some fields. -/
def objectsOfFields : List (Text × Value) → List (List Text)
  | [] => []
  | (_, value) :: rest => value.objects ++ objectsOfFields rest

end

mutual

/-- Each string in a value, keys and values. -/
def Value.strings : Value → List Text
  | .string text => [text]
  | .array items => stringsOfItems items
  | .object fields => stringsOfFields fields
  | _ => []

/-- Each string in some values. -/
def stringsOfItems : List Value → List Text
  | [] => []
  | item :: rest => item.strings ++ stringsOfItems rest

/-- Each string in some fields. -/
def stringsOfFields : List (Text × Value) → List Text
  | [] => []
  | (key, value) :: rest => key :: (value.strings ++ stringsOfFields rest)

end

/-- The keys of each object in what a part of a kind means. -/
def Kind.objects : (kind : Kind) → kind.Meaning → List (List Text)
  | .value => Value.objects
  | .items => objectsOfItems
  | .fields => objectsOfFields

/-- Each string in what a part of a kind means. -/
def Kind.strings : (kind : Kind) → kind.Meaning → List Text
  | .value => Value.strings
  | .items => stringsOfItems
  | .fields => stringsOfFields

theorem keys_meaning : ∀ fields : Part .fields,
    fields.keys = List.map (Prod.fst : Text × Value → Text) fields.meaning
  | .lastField _ _ _ _ _ _ => rfl
  | .field _ key _ _ _ _ rest => congrArg (key.decoded :: ·) (keys_meaning rest)

/-- A part's objects are those of what it means. -/
theorem objects_meaning {kind : Kind} (part : Part kind) :
    part.objects = kind.objects part.meaning := by
  induction part with
  | null => rfl
  | bool value => rfl
  | number number => rfl
  | string literal => rfl
  | emptyArray inside => rfl
  | array items inductionHypothesis => exact inductionHypothesis
  | emptyObject inside => rfl
  | object fields inductionHypothesis =>
    exact congrArg₂ List.cons (keys_meaning fields) inductionHypothesis
  | lastItem before value after inductionHypothesis =>
    exact inductionHypothesis.trans (append_nil _).symm
  | item before value after rest valueHypothesis restHypothesis =>
    exact congrArg₂ _ valueHypothesis restHypothesis
  | lastField before key afterKey beforeValue value after inductionHypothesis =>
    exact inductionHypothesis.trans (append_nil _).symm
  | field before key afterKey beforeValue value after rest valueHypothesis
      restHypothesis =>
      exact congrArg₂ _ valueHypothesis restHypothesis

/-- A part's strings are those of what it means. -/
theorem strings_meaning {kind : Kind} (part : Part kind) :
    part.strings = kind.strings part.meaning := by
  induction part with
  | null => rfl
  | bool value => rfl
  | number number => rfl
  | string literal => rfl
  | emptyArray inside => rfl
  | array items inductionHypothesis => exact inductionHypothesis
  | emptyObject inside => rfl
  | object fields inductionHypothesis => exact inductionHypothesis
  | lastItem before value after inductionHypothesis =>
    exact inductionHypothesis.trans (append_nil _).symm
  | item before value after rest valueHypothesis restHypothesis =>
    exact congrArg₂ _ valueHypothesis restHypothesis
  | lastField before key afterKey beforeValue value after inductionHypothesis =>
    exact congrArg _ (inductionHypothesis.trans (append_nil _).symm)
  | field before key afterKey beforeValue value after rest valueHypothesis
      restHypothesis =>
      exact congrArg _ (congrArg₂ _ valueHypothesis restHypothesis)

end Script

end Toolkit
