import HushOS.Toolkit.Bytes

namespace Toolkit

namespace Json

/-!
# JSON texts

The reader takes any JSON text.  A number is read as the double nearest to it,
of which only one thing is kept: the natural number it is, when it is one that
every double arithmetic keeps apart from its neighbours (at most `2^53 - 1`,
and not the negative zero).  A lone surrogate, which no text of scalar values
holds, is read as the replacement character, as encoding it would write it.

The writer writes plain values only, texts, naturals and lists of them,
compactly: nothing stands between the parts but one comma.
-/

/-- What a JSON text holds. -/
inductive Value where
  | null
  | bool (value : Bool)
  | natural (value : Nat)
  | otherNumber
  | string (value : String)
  | array (items : List Value)
  | object (fields : List (String × Value))

/-- A value built of texts, naturals and lists alone. -/
inductive Plain where
  | text (value : String)
  | number (value : Nat)
  | list (items : List Plain)

instance : Inhabited Plain := ⟨.list []⟩

/-- Whether a value is a given text can be decided. -/
instance Plain.decidableEqText (plain : Plain) (text : String) :
    Decidable (plain = .text text) :=
  match plain with
  | .text value => decidable_of_iff (value = text) (by simp)
  | .number _ => isFalse (by simp)
  | .list _ => isFalse (by simp)

/-- Whether a value is a given number can be decided. -/
instance Plain.decidableEqNumber (plain : Plain) (number : Nat) :
    Decidable (plain = .number number) :=
  match plain with
  | .text _ => isFalse (by simp)
  | .number value => decidable_of_iff (value = number) (by simp)
  | .list _ => isFalse (by simp)

/-- The hexadecimal digit of a number below 16. -/
def hexDigit (value : Nat) : Char :=
  if value < 10 then Char.ofNat (48 + value) else Char.ofNat (87 + value)

/-- How one character of a text is written. -/
def escape (char : Char) : List Char :=
  if char = '"' then ['\\', '"']
  else if char = '\\' then ['\\', '\\']
  else if char = Char.ofNat 8 then ['\\', 'b']
  else if char = Char.ofNat 12 then ['\\', 'f']
  else if char = '\n' then ['\\', 'n']
  else if char = '\r' then ['\\', 'r']
  else if char = '\t' then ['\\', 't']
  else if char.toNat < 32 then
    ['\\', 'u', '0', '0', hexDigit (char.toNat / 16), hexDigit (char.toNat % 16)]
  else [char]

mutual

/-- A plain value, written compactly. -/
def compact : Plain → List Char
  | .text value =>
    '"' :: (value.toList.flatMap escape ++ ['"'])
  | .number value =>
    Nat.toDigits 10 value
  | .list items =>
    '[' :: (compactItems items ++ [']'])

/-- Plain values, written compactly with commas between them. -/
def compactItems : List Plain → List Char
  | [] => []
  | [item] => compact item
  | item :: next :: rest =>
    compact item ++ ',' :: compactItems (next :: rest)

end

/-- A quotient rounded to the nearest natural, halves to the even one. -/
def roundHalfEven (numerator denominator : Nat) : Nat :=
  let quotient := numerator / denominator
  let remainder := numerator % denominator
  if 2 * remainder < denominator then quotient
  else if 2 * remainder > denominator then quotient + 1
  else if quotient % 2 = 0 then quotient
  else quotient + 1

/-- The largest natural below which doubles keep every natural apart. -/
def maxSafe : Nat := 2 ^ 53 - 1

/--
How many binary places after the point a double near `numerator / denominator`
keeps: 52 after its leading bit, and never more than 1074.
-/
def places (numerator denominator : Nat) : Nat :=
  if denominator ≤ numerator then
    52 - Nat.log2 (numerator / denominator)
  else
    min 1074 (52 + Nat.log2 ((denominator - 1) / numerator) + 1)

/--
The natural the double nearest to `numerator / denominator` is, when it is
one of at most `maxSafe`.
-/
def nearestNatural (numerator denominator : Nat) : Option Nat :=
  if numerator = 0 then
    some 0
  else if 2 ^ 53 ≤ numerator / denominator then
    none
  else
    let scale := 2 ^ places numerator denominator
    let rounded := roundHalfEven (numerator * scale) denominator
    if rounded % scale = 0 ∧ rounded / scale ≤ maxSafe then
      some (rounded / scale)
    else
      none

/-- The digits a text starts with, and the rest. -/
def splitDigits (chars : List Char) : List Char × List Char :=
  chars.span Char.isDigit

/-- The digits of an integer part: a lone zero, or digits not starting with one. -/
def integerPart : List Char → Option (List Char × List Char)
  | '0' :: rest => some (['0'], rest)
  | char :: rest =>
    if char.isDigit then some (splitDigits (char :: rest)) else none
  | [] => none

/-- The digits after a decimal point, none when there is no point. -/
def fractionPart : List Char → Option (List Char × List Char)
  | '.' :: rest =>
    match splitDigits rest with
    | ([], _) => none
    | found => some found
  | chars => some ([], chars)

/-- The exponent, zero when there is none. -/
def exponentPart : List Char → Option (Int × List Char)
  | char :: rest =>
    if char = 'e' ∨ char = 'E' then
      let (negative, digits) :=
        match rest with
        | '-' :: later => (true, later)
        | '+' :: later => (false, later)
        | _ => (false, rest)
      match splitDigits digits with
      | ([], _) => none
      | (found, later) =>
        let value : Int := Nat.ofDigitChars 10 found 0
        some (if negative then -value else value, later)
    else
      some (0, char :: rest)
  | [] => some (0, [])

/-- The value of a number without sign, from its digits and power of ten. -/
def numberValue (digits : List Char) (power : Int) : Value :=
  let mantissa := Nat.ofDigitChars 10 digits 0
  let nearest :=
    if 0 ≤ power then
      nearestNatural (mantissa * 10 ^ power.toNat) 1
    else
      nearestNatural mantissa (10 ^ (-power).toNat)
  match nearest with
  | some value => .natural value
  | none => .otherNumber

/-- Whether a number starts with a minus sign, and what follows the sign. -/
def splitSign : List Char → Bool × List Char
  | '-' :: rest => (true, rest)
  | chars => (false, chars)

/-- Read a number; any number with a minus sign is no natural (`-0` neither). -/
def readNumber (chars : List Char) : Option (Value × List Char) := do
  let (negative, unsigned) := splitSign chars
  let (whole, afterWhole) ← integerPart unsigned
  let (fraction, afterFraction) ← fractionPart afterWhole
  let (exponent, rest) ← exponentPart afterFraction
  let value :=
    if negative then
      Value.otherNumber
    else
      numberValue (whole ++ fraction) (exponent - fraction.length)
  some (value, rest)

/-- The value of a hexadecimal digit, in either case. -/
def hexValue (char : Char) : Option Nat :=
  if char.isDigit then some (char.toNat - 48)
  else if 97 ≤ char.toNat ∧ char.toNat ≤ 102 then some (char.toNat - 87)
  else if 65 ≤ char.toNat ∧ char.toNat ≤ 70 then some (char.toNat - 55)
  else none

/-- The sixteen-bit unit four hexadecimal digits name. -/
def readUnit : List Char → Option (Nat × List Char)
  | first :: second :: third :: fourth :: rest => do
      let a ← hexValue first
      let b ← hexValue second
      let c ← hexValue third
      let d ← hexValue fourth
      some (((a * 16 + b) * 16 + c) * 16 + d, rest)
  | _ => none

/-- Whether a unit is a high surrogate. -/
def isHigh (unit : Nat) : Bool := 0xD800 ≤ unit && unit < 0xDC00

/-- Whether a unit is a low surrogate. -/
def isLow (unit : Nat) : Bool := 0xDC00 ≤ unit && unit < 0xE000

/-- The character a lone surrogate is read as. -/
def replacement : Char := Char.ofNat 0xFFFD

/-- The character after `\u`: a unit, or two surrogates that make one. -/
def readUnicode (chars : List Char) : Option (Char × List Char) := do
  let (unit, rest) ← readUnit chars
  if isHigh unit then
    match rest with
    | '\\' :: 'u' :: later =>
      match readUnit later with
      | some (second, afterPair) =>
        if isLow second then
          some (Char.ofNat
            (0x10000 + (unit - 0xD800) * 0x400 + (second - 0xDC00)),
            afterPair)
        else
          some (replacement, rest)
      | none => some (replacement, rest)
    | _ => some (replacement, rest)
  else if isLow unit then
    some (replacement, rest)
  else
    some (Char.ofNat unit, rest)

/-- The character an escape of one letter stands for. -/
def readEscape (letter : Char) : Option Char :=
  if letter = '"' then some '"'
  else if letter = '\\' then some '\\'
  else if letter = '/' then some '/'
  else if letter = 'b' then some (Char.ofNat 8)
  else if letter = 'f' then some (Char.ofNat 12)
  else if letter = 'n' then some '\n'
  else if letter = 'r' then some '\r'
  else if letter = 't' then some '\t'
  else none

/-- Read the characters of a text up to its closing quote. -/
def readText : Nat → List Char → Option (List Char × List Char)
  | 0, _ => none
  | fuel + 1, chars =>
    match chars with
    | [] => none
    | '"' :: rest => some ([], rest)
    | '\\' :: 'u' :: rest => do
        let (char, afterChar) ← readUnicode rest
        let (later, final) ← readText fuel afterChar
        some (char :: later, final)
    | '\\' :: letter :: rest => do
        let char ← readEscape letter
        let (later, final) ← readText fuel rest
        some (char :: later, final)
    | char :: rest =>
      if char.toNat < 32 ∨ char = '\\' then
        none
      else do
        let (later, final) ← readText fuel rest
        some (char :: later, final)

/-- The four characters JSON allows between its parts. -/
def isSpace (char : Char) : Bool :=
  char = ' ' || char = '\t' || char = '\n' || char = '\r'

/-- Drop the spaces a text starts with. -/
def skipSpaces (chars : List Char) : List Char :=
  chars.dropWhile isSpace

mutual

/-- Read one value, `fuel` bounding how far its parts nest and follow. -/
def readValue : Nat → List Char → Option (Value × List Char)
  | 0, _ => none
  | fuel + 1, chars =>
    match skipSpaces chars with
    | 'n' :: 'u' :: 'l' :: 'l' :: rest => some (.null, rest)
    | 't' :: 'r' :: 'u' :: 'e' :: rest => some (.bool true, rest)
    | 'f' :: 'a' :: 'l' :: 's' :: 'e' :: rest => some (.bool false, rest)
    | '"' :: rest => do
        let (found, later) ← readText (rest.length + 1) rest
        some (.string (String.ofList found), later)
    | '[' :: rest =>
      match skipSpaces rest with
      | ']' :: later => some (.array [], later)
      | _ => do
          let (items, later) ← readItems fuel rest
          some (.array items, later)
    | '{' :: rest =>
      match skipSpaces rest with
      | '}' :: later => some (.object [], later)
      | _ => do
          let (fields, later) ← readFields fuel rest
          some (.object fields, later)
    | other => readNumber other

/-- Read the items of an array up to its closing bracket. -/
def readItems : Nat → List Char → Option (List Value × List Char)
  | 0, _ => none
  | fuel + 1, chars => do
      let (item, rest) ← readValue fuel chars
      match skipSpaces rest with
      | ',' :: later => do
          let (items, final) ← readItems fuel later
          some (item :: items, final)
      | ']' :: later => some ([item], later)
      | _ => none

/-- Read the fields of an object up to its closing brace. -/
def readFields : Nat → List Char → Option (List (String × Value) × List Char)
  | 0, _ => none
  | fuel + 1, chars =>
    match skipSpaces chars with
    | '"' :: afterQuote => do
        let (name, afterName) ← readText (afterQuote.length + 1) afterQuote
        match skipSpaces afterName with
        | ':' :: afterColon => do
            let (value, rest) ← readValue fuel afterColon
            match skipSpaces rest with
            | ',' :: later => do
                let (fields, final) ← readFields fuel later
                some ((String.ofList name, value) :: fields, final)
            | '}' :: later => some ([(String.ofList name, value)], later)
            | _ => none
        | _ => none
    | _ => none

end

/-- The value a text holds, when the whole of it is one JSON value. -/
def parse (chars : List Char) : Option Value := do
  let (value, rest) ← readValue (2 * chars.length + 1) chars
  match skipSpaces rest with
  | [] => some value
  | _ => none

mutual

/-- The plain value a value is, when it is one. -/
def Value.plain? : Value → Option Plain
  | .natural value => some (.number value)
  | .string value => some (.text value)
  | .array items => (plainItems? items).map .list
  | _ => none

/-- The plain values a list of values holds, when all are plain. -/
def plainItems? : List Value → Option (List Plain)
  | [] => some []
  | item :: rest =>
    match item.plain?, plainItems? rest with
    | some plain, some others => some (plain :: others)
    | _, _ => none

end

end Json

end Toolkit
