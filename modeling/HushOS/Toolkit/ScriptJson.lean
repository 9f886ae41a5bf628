import HushOS.Toolkit.ScriptText
import HushOS.Toolkit.Json

namespace Toolkit

namespace Script

/-!
# JSON documents as they are written

A document is what the grammar derives, with its white space, its escapes and
its numbers as they stand, so that each text JSON accepts is the text of one.
Beside the text stands what it means: values whose objects keep their fields in
the order written, one named twice as well.
-/

/-- The white space of JSON. -/
inductive Space where
  | blank
  | tab
  | newline
  | carriage
  deriving DecidableEq

/-- The unit of a space. -/
def Space.unit : Space → UInt16
  | .blank => 32
  | .tab => 9
  | .newline => 10
  | .carriage => 13

/-- White space between tokens. -/
abbrev Gap := List Space

/-- Its text. -/
def Gap.text (gap : Gap) : Text :=
  gap.map Space.unit

/-- A hexadecimal digit, in either case. -/
structure HexDigit where
  value : Fin 16
  upper : Bool
  deriving DecidableEq

/-- The unit of a hexadecimal digit. -/
def HexDigit.unit (digit : HexDigit) : UInt16 :=
  UInt16.ofNat
    (if digit.value.val < 10 then 48 + digit.value.val
      else if digit.upper then 55 + digit.value.val
      else 87 + digit.value.val)

/-- The escapes of one letter. -/
inductive Escape where
  | quote
  | backslash
  | slash
  | backspace
  | formFeed
  | newline
  | carriage
  | tab
  deriving DecidableEq

/-- The letter after the backslash. -/
def Escape.letter : Escape → UInt16
  | .quote => 34
  | .backslash => 92
  | .slash => 47
  | .backspace => 98
  | .formFeed => 102
  | .newline => 110
  | .carriage => 114
  | .tab => 116

/-- The unit an escape stands for. -/
def Escape.unit : Escape → UInt16
  | .quote => 34
  | .backslash => 92
  | .slash => 47
  | .backspace => 8
  | .formFeed => 12
  | .newline => 10
  | .carriage => 13
  | .tab => 9

/-- A unit a string may hold as itself: no control, quote or backslash. -/
def Raw (unit : UInt16) : Prop :=
  32 ≤ unit.toNat ∧ unit ≠ 34 ∧ unit ≠ 92

instance (unit : UInt16) : Decidable (Raw unit) :=
  inferInstanceAs (Decidable (_ ∧ _ ∧ _))

/-- One unit of a string, as it is written. -/
inductive Piece where
  | raw (unit : UInt16) (plain : Raw unit)
  | escape (letter : Escape)
  | unicode (first second third fourth : HexDigit)

/-- Its text. -/
def Piece.text : Piece → Text
  | .raw unit _ => [unit]
  | .escape letter => [92, letter.letter]
  | .unicode first second third fourth =>
    [92, 117, first.unit, second.unit, third.unit, fourth.unit]

/-- The unit it stands for. -/
def Piece.unit : Piece → UInt16
  | .raw unit _ => unit
  | .escape letter => letter.unit
  | .unicode first second third fourth =>
    UInt16.ofNat
      (((first.value.val * 16 + second.value.val) * 16 + third.value.val) *
        16 + fourth.value.val)

/-- A string between its quotes. -/
abbrev Literal := List Piece

/-- What stands between the quotes. -/
def Literal.body (literal : Literal) : Text :=
  literal.flatMap Piece.text

/-- The text of a string. -/
def Literal.text (literal : Literal) : Text :=
  34 :: (literal.body ++ [34])

/-- The text a string holds, its escapes decoded. -/
def Literal.decoded (literal : Literal) : Text :=
  literal.map Piece.unit

instance tenNeZero : NeZero (10 : Nat) := ⟨by decide⟩

/-- Decimal digits, at least one. -/
structure Digits where
  first : Fin 10
  rest : List (Fin 10)
  deriving DecidableEq

/-- The unit of a decimal digit. -/
def digitUnit (digit : Fin 10) : UInt16 :=
  UInt16.ofNat (48 + digit.val)

/-- The digits in order. -/
def Digits.all (digits : Digits) : List (Fin 10) :=
  digits.first :: digits.rest

/-- Their text. -/
def Digits.text (digits : Digits) : Text :=
  digits.all.map digitUnit

/-- The whole part of a number: zero, or digits that begin with none. -/
structure Whole where
  digits : Digits
  leads : digits.first = 0 → digits.rest = []

/-- The exponent of a number, as it is written. -/
structure Exponent where
  upper : Bool
  /-- The sign, if one is written, and whether it is a minus. -/
  sign : Option Bool
  digits : Digits
  deriving DecidableEq

/-- Its text. -/
def Exponent.text (exponent : Exponent) : Text :=
  (if exponent.upper then 69 else 101) ::
    ((match exponent.sign with
      | none => []
      | some true => [45]
      | some false => [43]) ++ exponent.digits.text)

/-- A number, as it is written. -/
structure Number where
  negative : Bool
  whole : Whole
  fraction : Option Digits
  exponent : Option Exponent

/-- The text of a fraction. -/
def fractionText : Option Digits → Text
  | none => []
  | some digits => 46 :: digits.text

/-- The text of an exponent, if there is one. -/
def exponentText : Option Exponent → Text
  | none => []
  | some exponent => exponent.text

/-- The text of a number. -/
def Number.text (number : Number) : Text :=
  (if number.negative then [45] else []) ++ (number.whole.digits.text ++
    (fractionText number.fraction ++ exponentText number.exponent))

/-- The number digits name. -/
def ofDigits (digits : List (Fin 10)) : Nat :=
  digits.foldl (fun value digit => value * 10 + digit.val) 0

/-- The power of ten a number's digits are taken at. -/
def Number.power (number : Number) : Int :=
  let fraction : Nat := (number.fraction.map fun digits => digits.all.length).getD 0
  let exponent : Int :=
    match number.exponent with
    | none => 0
    | some exponent =>
      if exponent.sign = some true then -(ofDigits exponent.digits.all : Int)
      else ofDigits exponent.digits.all
  exponent - fraction

/--
The safe natural the double nearest to a number is, if it is one.  Minus zero
is zero, as the comparisons of JavaScript have it.
-/
def Number.natural? (number : Number) : Option Nat :=
  let digits := number.whole.digits.all ++
    (number.fraction.map Digits.all).getD []
  let nearest :=
    if 0 ≤ number.power then
      Json.nearestNatural (ofDigits digits * 10 ^ number.power.toNat) 1
    else
      Json.nearestNatural (ofDigits digits) (10 ^ (-number.power).toNat)
  if number.negative then
    nearest.filter fun value => value = 0
  else
    nearest

/-- What a document means. -/
inductive Value where
  | null
  | bool (value : Bool)
  | number (value : Number)
  | string (value : Text)
  | array (items : List Value)
  | object (fields : List (Text × Value))

/-- The kinds of parts a document is made of. -/
inductive Kind where
  | value
  | items
  | fields

/-- What a part of a kind means. -/
def Kind.Meaning : Kind → Type
  | .value => Value
  | .items => List Value
  | .fields => List (Text × Value)

/-- A part of a document: a value, or an array's or an object's rest and end. -/
inductive Part : Kind → Type where
  | null : Part .value
  | bool (value : Bool) : Part .value
  | number (value : Number) : Part .value
  | string (literal : Literal) : Part .value
  | emptyArray (inside : Gap) : Part .value
  | array (items : Part .items) : Part .value
  | emptyObject (inside : Gap) : Part .value
  | object (fields : Part .fields) : Part .value
  | lastItem (before : Gap) (value : Part .value) (after : Gap) : Part .items
  | item
      (before : Gap)
      (value : Part .value)
      (after : Gap)
      (rest : Part .items) : Part .items
  | lastField
      (before : Gap)
      (key : Literal)
      (afterKey beforeValue : Gap)
      (value : Part .value)
      (after : Gap) : Part .fields
  | field
      (before : Gap)
      (key : Literal)
      (afterKey beforeValue : Gap)
      (value : Part .value)
      (after : Gap)
      (rest : Part .fields) : Part .fields

/-- The text of a part, with the bracket that ends an array or an object. -/
def Part.text : {kind : Kind} → Part kind → Text
  | _, .null => [110, 117, 108, 108]
  | _, .bool true => [116, 114, 117, 101]
  | _, .bool false => [102, 97, 108, 115, 101]
  | _, .number value => value.text
  | _, .string literal => literal.text
  | _, .emptyArray inside => 91 :: (inside.text ++ [93])
  | _, .array items => 91 :: items.text
  | _, .emptyObject inside => 123 :: (inside.text ++ [125])
  | _, .object fields => 123 :: fields.text
  | _, .lastItem before value after =>
    before.text ++ (value.text ++ (after.text ++ [93]))
  | _, .item before value after rest =>
    before.text ++ (value.text ++ (after.text ++ 44 :: rest.text))
  | _, .lastField before key afterKey beforeValue value after =>
    before.text ++ (key.text ++ (afterKey.text ++ 58 ::
      (beforeValue.text ++ (value.text ++ (after.text ++ [125])))))
  | _, .field before key afterKey beforeValue value after rest =>
    before.text ++ (key.text ++ (afterKey.text ++ 58 ::
      (beforeValue.text ++ (value.text ++ (after.text ++ 44 :: rest.text)))))

/-- What a part means. -/
def Part.meaning : {kind : Kind} → Part kind → kind.Meaning
  | _, .null => Value.null
  | _, .bool value => Value.bool value
  | _, .number value => Value.number value
  | _, .string literal => Value.string literal.decoded
  | _, .emptyArray _ => Value.array []
  | _, .array items => Value.array items.meaning
  | _, .emptyObject _ => Value.object []
  | _, .object fields => Value.object fields.meaning
  | _, .lastItem _ value _ => [value.meaning]
  | _, .item _ value _ rest => List.cons (α := Value) value.meaning rest.meaning
  | _, .lastField _ key _ _ value _ => [(key.decoded, value.meaning)]
  | _, .field _ key _ _ value _ rest =>
    List.cons (α := Text × Value) (key.decoded, value.meaning) rest.meaning

/-- The keys of an object's fields, in order. -/
def Part.keys : {kind : Kind} → Part kind → List Text
  | _, .lastField _ key _ _ _ _ => [key.decoded]
  | _, .field _ key _ _ _ _ rest => key.decoded :: rest.keys
  | _, _ => []

/-- The keys of each object in a part. -/
def Part.objects : {kind : Kind} → Part kind → List (List Text)
  | _, .array items => items.objects
  | _, .emptyObject _ => [[]]
  | _, .object fields => fields.keys :: fields.objects
  | _, .lastItem _ value _ => value.objects
  | _, .item _ value _ rest => value.objects ++ rest.objects
  | _, .lastField _ _ _ _ value _ => value.objects
  | _, .field _ _ _ _ value _ rest => value.objects ++ rest.objects
  | _, _ => []

/-- Each string in a part, keys and values. -/
def Part.strings : {kind : Kind} → Part kind → List Text
  | _, .string literal => [literal.decoded]
  | _, .array items => items.strings
  | _, .object fields => fields.strings
  | _, .lastItem _ value _ => value.strings
  | _, .item _ value _ rest => value.strings ++ rest.strings
  | _, .lastField _ key _ _ value _ => key.decoded :: value.strings
  | _, .field _ key _ _ value _ rest =>
    key.decoded :: (value.strings ++ rest.strings)
  | _, _ => []

/-- A document: one value, with white space around it. -/
structure Document where
  before : Gap
  value : Part .value
  after : Gap

/-- The text of a document. -/
def Document.text (document : Document) : Text :=
  document.before.text ++ (document.value.text ++ document.after.text)

end Script

end Toolkit
