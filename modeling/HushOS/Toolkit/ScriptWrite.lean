import HushOS.Toolkit.ScriptParse
import HushOS.Toolkit.JsonRoundTrip

namespace Toolkit

open List

namespace Script

/-!
# Writing JSON

`JSON.stringify` writes a value compactly, each lone surrogate as an escape: what
it writes holds none, is a document, and is read back as the value.
-/

/-- The lower-case digit of a number below 16. -/
def hexDigit (value : Nat) : HexDigit :=
  ⟨Fin.ofNat 16 value, false⟩

/-- A unit by its four hexadecimal digits. -/
def unicodePiece (unit : UInt16) : Piece :=
  .unicode (hexDigit (unit.toNat / 4096)) (hexDigit (unit.toNat / 256))
    (hexDigit (unit.toNat / 16)) (hexDigit unit.toNat)

/-- How a unit of a string is written, a lone surrogate by its digits. -/
def pieceOf (alone : Bool) (unit : UInt16) : Piece :=
  if unit = 34 then .escape .quote
  else if unit = 92 then .escape .backslash
  else if unit = 8 then .escape .backspace
  else if unit = 12 then .escape .formFeed
  else if unit = 10 then .escape .newline
  else if unit = 13 then .escape .carriage
  else if unit = 9 then .escape .tab
  else if alone then unicodePiece unit
  else if plain : Raw unit then .raw unit plain
  else unicodePiece unit

/-- How a string is written. -/
def quoted : Text → Literal
  | [] => []
  | [unit] => [pieceOf (isHigh unit || isLow unit) unit]
  | unit :: next :: rest =>
    if isHigh unit && isLow next then
      pieceOf false unit :: pieceOf false next :: quoted rest
    else
      pieceOf (isHigh unit || isLow unit) unit :: quoted (next :: rest)

theorem unit_unicodePiece (unit : UInt16) : (unicodePiece unit).unit = unit := by
  have small := unit_lt unit
  rw [unicodePiece, Piece.unit]
  have whole : (((hexDigit (unit.toNat / 4096)).value.val * 16 +
      (hexDigit (unit.toNat / 256)).value.val) * 16 +
        (hexDigit (unit.toNat / 16)).value.val) * 16 +
          (hexDigit unit.toNat).value.val = unit.toNat := by
    simp only [hexDigit, Fin.ofNat]
    omega
  rw [whole, UInt16.ofNat_toNat]

/-- A unit is written as an escape or, when not alone, as it stands. -/
theorem pieceOf_cases (alone : Bool) (unit : UInt16) :
    pieceOf alone unit = unicodePiece unit ∨
      (∃ letter : Escape, pieceOf alone unit = .escape letter ∧
        letter.unit = unit) ∨
      alone = false ∧ ∃ plain, pieceOf alone unit = .raw unit plain := by
  unfold pieceOf
  split
  · next same => exact .inr (.inl ⟨.quote, rfl, same.symm⟩)
  · split
    · next same => exact .inr (.inl ⟨.backslash, rfl, same.symm⟩)
    · split
      · next same => exact .inr (.inl ⟨.backspace, rfl, same.symm⟩)
      · split
        · next same => exact .inr (.inl ⟨.formFeed, rfl, same.symm⟩)
        · split
          · next same => exact .inr (.inl ⟨.newline, rfl, same.symm⟩)
          · split
            · next same => exact .inr (.inl ⟨.carriage, rfl, same.symm⟩)
            · split
              · next same => exact .inr (.inl ⟨.tab, rfl, same.symm⟩)
              · split
                · exact .inl rfl
                · next together =>
                    split
                    · next plain =>
                        exact .inr (.inr ⟨by simpa using together, plain, rfl⟩)
                    · exact .inl rfl

theorem unit_pieceOf (alone : Bool) (unit : UInt16) :
    (pieceOf alone unit).unit = unit := by
  rcases pieceOf_cases alone unit with digits | ⟨letter, escape, same⟩ |
    ⟨_, plain, raw⟩
  · rw [digits, unit_unicodePiece]
  · rw [escape]
    exact same
  · rw [raw]
    rfl

theorem decoded_quoted (text : Text) : (quoted text).decoded = text := by
  fun_induction quoted text with
  | case1 => rfl
  | case2 unit => rw [Literal.decoded, map_singleton, unit_pieceOf]
  | case3 unit next rest pair inductionHypothesis =>
    rw [Literal.decoded] at inductionHypothesis ⊢
    rw [map_cons, map_cons, unit_pieceOf, unit_pieceOf,
      inductionHypothesis]
  | case4 unit next rest pair inductionHypothesis =>
    rw [Literal.decoded] at inductionHypothesis ⊢
    rw [map_cons, unit_pieceOf, inductionHypothesis]

/-- A text after which any other begins anew, and that holds no lone surrogate. -/
structure Complete (text : Text) : Prop where
  paired : ∀ rest, lone (text ++ rest) = lone rest
  apart : ∀ rest, chars (text ++ rest) = chars text ++ chars rest

theorem complete_nil : Complete [] where
  paired := fun _ => rfl
  apart := fun _ => rfl

theorem Complete.append
    {first second : Text}
    (complete : Complete first)
    (completeToo : Complete second) :
    Complete (first ++ second) where
  paired rest := by
    rw [append_assoc, complete.paired, completeToo.paired]
  apart rest := by
    rw [append_assoc, complete.apart, completeToo.apart, complete.apart,
      append_assoc]

variable {unit : UInt16} {text : Text}

theorem complete_unit
    (notHigh : isHigh unit = false)
    (notLow : isLow unit = false) :
    Complete [unit] where
  paired rest := by
    cases rest with
    | nil => simp [lone, notHigh, notLow]
    | cons next rest => simp [lone, notHigh, notLow]
  apart rest := by
    cases rest with
    | nil => simp [chars]
    | cons next rest => simp [chars, notHigh]

theorem complete_below
    (below : unit.toNat < 0xD800) :
    Complete [unit] := by
  refine complete_unit ?_ ?_
  · simp only [isHigh, Bool.and_eq_false_iff, decide_eq_false_iff_not]
    omega
  · simp only [isLow, Bool.and_eq_false_iff, decide_eq_false_iff_not]
    omega

theorem complete_all_below
    (below : ∀ unit ∈ text, unit.toNat < 0xD800) :
    Complete text := by
  induction text with
  | nil => exact complete_nil
  | cons unit rest inductionHypothesis =>
    exact (complete_below (below unit (by simp))).append
      (inductionHypothesis fun other member => below other (by simp [member]))

theorem complete_pair
    {high low : UInt16}
    (pair : (isHigh high && isLow low) = true) :
    Complete [high, low] where
  paired rest := by simp [lone, pair]
  apart rest := by simp [chars, pair]

theorem Complete.lone_eq
    (complete : Complete text) :
    lone text = false := by
  have alone := complete.paired []
  rw [append_nil] at alone
  exact alone

theorem Complete.encode
    (complete : Complete text)
    (rest : Text) :
    encode (text ++ rest) = encode text ++ encode rest := by
  rw [Script.encode, complete.apart, Utf8.encode, flatMap_append]
  rfl

theorem unit_hexDigit_lt (digit : HexDigit) : digit.unit.toNat < 128 := by
  obtain ⟨value, upper⟩ := digit
  revert value upper
  decide

theorem letter_lt (letter : Escape) : letter.letter.toNat < 128 := by
  cases letter with
  | _ => decide

/-- A piece is ASCII or the unit as it stands. -/
theorem text_pieceOf (alone : Bool) (unit : UInt16) :
    (∀ other ∈ (pieceOf alone unit).text, other.toNat < 128) ∨
      alone = false ∧ (pieceOf alone unit).text = [unit] := by
  rcases pieceOf_cases alone unit with digits | ⟨letter, escape, _⟩ |
    ⟨together, plain, raw⟩
  · refine .inl fun other member => ?_
    rw [digits] at member
    simp only [unicodePiece, Piece.text, mem_cons, not_mem_nil,
      or_false] at member
    rcases member with rfl | rfl | rfl | rfl | rfl | rfl
    · decide
    · decide
    · exact unit_hexDigit_lt _
    · exact unit_hexDigit_lt _
    · exact unit_hexDigit_lt _
    · exact unit_hexDigit_lt _
  · refine .inl fun other member => ?_
    rw [escape] at member
    simp only [Piece.text, mem_cons, not_mem_nil, or_false] at member
    rcases member with rfl | rfl
    · decide
    · exact letter_lt letter
  · exact .inr ⟨together, by rw [raw]; rfl⟩

theorem complete_pieceOf (unit : UInt16) :
    Complete (pieceOf (isHigh unit || isLow unit) unit).text := by
  rcases text_pieceOf (isHigh unit || isLow unit) unit with ascii | ⟨alone, itself⟩
  · exact complete_all_below fun other member =>
      (ascii other member).trans (by decide)
  · rw [Bool.or_eq_false_iff] at alone
    rw [itself]
    exact complete_unit alone.1 alone.2

theorem text_pieceOf_surrogate
    (surrogate : 0xD800 ≤ unit.toNat) :
    (pieceOf false unit).text = [unit] := by
  have apart (other : UInt16) (below : other.toNat < 0xD800) : unit ≠ other := by
    rintro rfl
    omega
  have raw : Raw unit :=
    ⟨by omega, apart 34 (by decide), apart 92 (by decide)⟩
  rw [pieceOf, if_neg (apart 34 (by decide)), if_neg (apart 92 (by decide)),
    if_neg (apart 8 (by decide)), if_neg (apart 12 (by decide)),
    if_neg (apart 10 (by decide)), if_neg (apart 13 (by decide)),
    if_neg (apart 9 (by decide)), if_neg Bool.false_ne_true, dif_pos raw]
  rfl

theorem complete_quoted (text : Text) : Complete (quoted text).body := by
  fun_induction quoted text with
  | case1 => exact complete_nil
  | case2 unit =>
    rw [Literal.body, flatMap_singleton]
    exact complete_pieceOf unit
  | case3 unit next rest pair inductionHypothesis =>
    have surrogates := pair
    simp only [isHigh, isLow, Bool.and_eq_true, decide_eq_true_eq] at surrogates
    rw [Literal.body, flatMap_cons, flatMap_cons, ← append_assoc,
      text_pieceOf_surrogate surrogates.1.1,
      text_pieceOf_surrogate ((by decide : 0xD800 ≤ 0xDC00).trans surrogates.2.1)]
    exact (complete_pair pair).append inductionHypothesis
  | case4 unit next rest pair inductionHypothesis =>
    rw [Literal.body, flatMap_cons]
    exact (complete_pieceOf unit).append inductionHypothesis

theorem complete_text_quoted (text : Text) : Complete (quoted text).text :=
  (complete_below (by decide : (34 : UInt16).toNat < 0xD800)).append
    ((complete_quoted text).append (complete_below (by decide)))

mutual

/-- `JSON.stringify`. -/
def write : Value → Text
  | .null => [110, 117, 108, 108]
  | .bool true => [116, 114, 117, 101]
  | .bool false => [102, 97, 108, 115, 101]
  | .number number => number.text
  | .string text => (quoted text).text
  | .array items => 91 :: (writeItems items ++ [93])
  | .object fields => 123 :: (writeFields fields ++ [125])

/-- The items of an array, with commas between them. -/
def writeItems : List Value → Text
  | [] => []
  | [item] => write item
  | item :: next :: rest => write item ++ 44 :: writeItems (next :: rest)

/-- The fields of an object, with commas between them. -/
def writeFields : List (Text × Value) → Text
  | [] => []
  | [(key, value)] => (quoted key).text ++ 58 :: write value
  | (key, value) :: next :: rest =>
    (quoted key).text ++ 58 :: (write value ++ 44 :: writeFields (next :: rest))

end

/-- A number's text splits no surrogate pair. -/
theorem complete_number (number : Number) : Complete number.text := by
  have digits : ∀ digits : Digits, Complete digits.text := fun digits =>
    complete_all_below fun unit member => by
      obtain ⟨digit, _, rfl⟩ := mem_map.mp member
      have range := digitUnit_range digit
      omega
  have below (unit : UInt16) (small : unit.toNat < 0xD800) : Complete [unit] :=
    complete_below small
  refine Complete.append ?_ ((digits _).append (Complete.append ?_ ?_))
  · cases number.negative with
    | true => exact below 45 (by decide)
    | false => exact complete_nil
  · cases number.fraction with
    | none => exact complete_nil
    | some fraction => exact (below 46 (by decide)).append (digits fraction)
  · cases number.exponent with
    | none => exact complete_nil
    | some exponent =>
      obtain ⟨upper, sign, following⟩ := exponent
      refine @Complete.append [_] _ ?_ (Complete.append ?_ (digits following))
      · cases upper with
        | true => exact below 69 (by decide)
        | false => exact below 101 (by decide)
      · rcases sign with _ | minus
        · exact complete_nil
        · cases minus with
          | true => exact below 45 (by decide)
          | false => exact below 43 (by decide)

mutual

/-- A written value splits no surrogate pair. -/
theorem complete_write : ∀ value, Complete (write value)
  | .null => complete_all_below (by simp [write])
  | .bool true => complete_all_below (by simp [write])
  | .bool false => complete_all_below (by simp [write])
  | .number number => by
    rw [write]
    exact complete_number number
  | .string text => by
    rw [write]
    exact complete_text_quoted text
  | .array items => by
    rw [write]
    exact (complete_below (by decide : (91 : UInt16).toNat < 0xD800)).append
      ((complete_writeItems items).append (complete_below (by decide)))
  | .object fields => by
    rw [write]
    exact (complete_below (by decide : (123 : UInt16).toNat < 0xD800)).append
      ((complete_writeFields fields).append (complete_below (by decide)))

theorem complete_writeItems : ∀ items, Complete (writeItems items)
  | [] => complete_nil
  | [item] => by
    rw [writeItems]
    exact complete_write item
  | item :: next :: rest => by
    rw [writeItems]
    exact (complete_write item).append
      ((complete_below (by decide : (44 : UInt16).toNat < 0xD800)).append
        (complete_writeItems (next :: rest)))

theorem complete_writeFields : ∀ fields, Complete (writeFields fields)
  | [] => complete_nil
  | [(key, value)] => by
    rw [writeFields]
    exact (complete_text_quoted key).append
      ((complete_below (by decide : (58 : UInt16).toNat < 0xD800)).append
        (complete_write value))
  | (key, value) :: next :: rest => by
    rw [writeFields]
    exact (complete_text_quoted key).append
      ((complete_below (by decide : (58 : UInt16).toNat < 0xD800)).append
        ((complete_write value).append
          ((complete_below (by decide : (44 : UInt16).toNat < 0xD800)).append
            (complete_writeFields (next :: rest)))))

end

mutual

/-- What is written for a value is a part that means it. -/
theorem exists_part : ∀ value, ∃ part : Part .value,
    part.text = write value ∧ part.meaning = value
  | .null => ⟨.null, rfl, rfl⟩
  | .bool true => ⟨.bool true, rfl, rfl⟩
  | .bool false => ⟨.bool false, rfl, rfl⟩
  | .number number => ⟨.number number, by rw [write]; rfl, rfl⟩
  | .string text => ⟨.string (quoted text), by rw [write]; rfl,
      congrArg Value.string (decoded_quoted text)⟩
  | .array [] => ⟨.emptyArray [], by rw [write]; rfl, rfl⟩
  | .array (item :: rest) => by
    obtain ⟨items, text, meaning⟩ := exists_items (item :: rest) nofun
    refine ⟨.array items, ?_, congrArg Value.array meaning⟩
    rw [write, Part.text, text]
  | .object [] => ⟨.emptyObject [], by rw [write]; rfl, rfl⟩
  | .object (field :: rest) => by
    obtain ⟨fields, text, meaning⟩ := exists_fields (field :: rest) nofun
    refine ⟨.object fields, ?_, congrArg Value.object meaning⟩
    rw [write, Part.text, text]

theorem exists_items : ∀ items : List Value, items ≠ [] →
    ∃ part : Part .items,
      part.text = writeItems items ++ [93] ∧ part.meaning = items
  | [], some_ => absurd rfl some_
  | [item], _ => by
    obtain ⟨part, text, meaning⟩ := exists_part item
    refine ⟨.lastItem [] part [], ?_, ?_⟩
    · rw [Part.text, text, writeItems]
      rfl
    · exact congrArg (fun item : Value => [item]) meaning
  | item :: next :: rest, _ => by
    obtain ⟨part, text, meaning⟩ := exists_part item
    obtain ⟨items, textRest, meaningRest⟩ := exists_items (next :: rest) nofun
    refine ⟨.item [] part [] items, ?_, ?_⟩
    · rw [Part.text, text, textRest, writeItems]
      simp [Gap.text]
    · exact congrArg₂ (fun (item : Value) items => item :: items) meaning meaningRest

/-- What is written for fields is a part that means them. -/
theorem exists_fields : ∀ fields : List (Text × Value), fields ≠ [] →
    ∃ part : Part .fields,
      part.text = writeFields fields ++ [125] ∧ part.meaning = fields
  | [], some_ => absurd rfl some_
  | [(key, value)], _ => by
    obtain ⟨part, text, meaning⟩ := exists_part value
    refine ⟨.lastField [] (quoted key) [] [] part [], ?_, ?_⟩
    · rw [Part.text, text, writeFields]
      simp [Gap.text]
    · exact congrArg₂ (fun (key : Text) (value : Value) => [(key, value)])
        (decoded_quoted key) meaning
  | (key, value) :: next :: rest, _ => by
    obtain ⟨part, text, meaning⟩ := exists_part value
    obtain ⟨fields, textRest, meaningRest⟩ := exists_fields (next :: rest) nofun
    refine ⟨.field [] (quoted key) [] [] part [] fields, ?_, ?_⟩
    · rw [Part.text, text, textRest, writeFields]
      simp [Gap.text]
    · have heads := congrArg₂ (fun (key : Text) (value : Value) => (key, value))
        (decoded_quoted key) meaning
      exact congrArg₂ (fun (field : Text × Value) fields => field :: fields) heads
        meaningRest

end

theorem parse_write (value : Value) (after : Gap) :
    parse (write value ++ after.text) = some value := by
  obtain ⟨part, text, meaning⟩ := exists_part value
  have read := parse_text ⟨[], part, after⟩
  rw [Document.text, text, meaning] at read
  exact read

/-- The decimal digits of a natural. -/
def digitsOf (value : Nat) : List (Fin 10) :=
  (Nat.toDigits 10 value).map fun char => Fin.ofNat 10 (char.toNat - 48)

theorem digit_value
    {char : Char}
    (digit : char.isDigit = true) :
    48 ≤ char.toNat ∧ (Fin.ofNat 10 (char.toNat - 48)).val = char.toNat - 48 := by
  simp only [Char.isDigit, Bool.and_eq_true, decide_eq_true_eq] at digit
  have low : 48 ≤ char.toNat := UInt32.le_iff_toNat_le.mp digit.1
  have high : char.toNat ≤ 57 := UInt32.le_iff_toNat_le.mp digit.2
  refine ⟨low, ?_⟩
  simp only [Fin.ofNat]
  omega

theorem leads_digitsOf
    {value : Nat}
    {first : Fin 10}
    {rest : List (Fin 10)}
    (shape : digitsOf value = first :: rest)
    (zero : first = 0) :
    rest = [] := by
  obtain ⟨char, others, digits, digit, leads⟩ := Json.toDigits_head value
  rw [digitsOf, digits, map_cons, List.cons.injEq] at shape
  obtain ⟨low, itsValue⟩ := digit_value digit
  have isZero : char = '0' := by
    rw [shape.1, zero] at itsValue
    have same : char.toNat = 48 := by
      change 0 = char.toNat - 48 at itsValue
      omega
    exact Char.toNat_inj.mp same
  rw [← shape.2, leads isZero]
  rfl

theorem zero_leads (_ : (0 : Fin 10) = 0) : ([] : List (Fin 10)) = [] :=
  rfl

/-- A natural as the whole part of a number. -/
def wholeOf (value : Nat) : Whole :=
  match shape : digitsOf value with
  | [] => ⟨⟨0, []⟩, zero_leads⟩
  | first :: rest => ⟨⟨first, rest⟩, leads_digitsOf shape⟩

/-- A natural, as it is written. -/
def Number.ofNat (value : Nat) : Number :=
  ⟨false, wholeOf value, none, none⟩

theorem all_wholeOf (value : Nat) : (wholeOf value).digits.all = digitsOf value := by
  unfold wholeOf
  split
  · next none_ =>
      obtain ⟨char, others, digits, _⟩ := Json.toDigits_head value
      rw [digitsOf, digits] at none_
      cases none_
  · next first rest shape => exact shape.symm

theorem ofDigits_digitsOf (value : Nat) : ofDigits (digitsOf value) = value := by
  have named : Nat.ofDigitChars 10 (Nat.toDigits 10 value) 0 = value :=
    Nat.ofDigitChars_toDigits (by decide) (by decide)
  have each : ∀ char ∈ Nat.toDigits 10 value, char.isDigit = true :=
    fun char member => Nat.isDigit_of_mem_toDigits (by decide) (by decide) member
  rw [Nat.ofDigitChars_eq_foldl] at named
  rw [ofDigits, digitsOf, foldl_map]
  refine Eq.trans ?_ named
  refine foldl_ext _ _ 0 fun sofar char member => ?_
  rw [(digit_value (each char member)).2, Nat.mul_comm]
  rfl

theorem natural?_ofNat
    {value : Nat}
    (safe : value ≤ Json.maxSafe) :
    (Number.ofNat value).natural? = some value := by
  have power : (Number.ofNat value).power = 0 := rfl
  have digits : (Number.ofNat value).whole.digits.all = digitsOf value :=
    all_wholeOf value
  rw [Number.natural?, power, digits]
  change Json.nearestNatural
    (ofDigits (digitsOf value ++ []) * 10 ^ 0) 1 = some value
  rw [append_nil, ofDigits_digitsOf, pow_zero, Nat.mul_one]
  exact Json.nearestNatural_safe safe

end Script

end Toolkit
