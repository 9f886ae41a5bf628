import HushOS.Toolkit.Bytes

namespace Toolkit

namespace Script

/-!
# Texts as JavaScript has them

A text is sixteen-bit units.  A high surrogate and the low one after it make one
character above `U+FFFF`; either without the other is a lone surrogate, which a
text may hold and UTF-8 may not.  Encoding writes U+FFFD for one.
-/

/-- A text, by its UTF-16 units. -/
abbrev Text := List UInt16

/-- The unit of an ASCII character. -/
def unit (char : Char) : UInt16 :=
  UInt16.ofNat char.toNat

/-- Whether a unit is the first of a pair. -/
def isHigh (unit : UInt16) : Bool :=
  0xD800 ≤ unit.toNat && unit.toNat < 0xDC00

/-- Whether a unit is the second of a pair. -/
def isLow (unit : UInt16) : Bool :=
  0xDC00 ≤ unit.toNat && unit.toNat < 0xE000

/-- Whether a text holds a lone surrogate. -/
def lone : Text → Bool
  | [] => false
  | [unit] => isHigh unit || isLow unit
  | unit :: next :: rest =>
    if isHigh unit && isLow next then
      lone rest
    else
      isHigh unit || isLow unit || lone (next :: rest)

/-- The character two surrogates make. -/
def pairChar (high low : UInt16) : Char :=
  Char.ofNat
    (0x10000 + (high.toNat - 0xD800) * 0x400 + (low.toNat - 0xDC00))

/-- The character of one unit, U+FFFD for a surrogate. -/
def unitChar (unit : UInt16) : Char :=
  if isHigh unit || isLow unit then Char.ofNat 0xFFFD else Char.ofNat unit.toNat

/-- The characters of a text. -/
def chars : Text → List Char
  | [] => []
  | [unit] => [unitChar unit]
  | unit :: next :: rest =>
    if isHigh unit && isLow next then
      pairChar unit next :: chars rest
    else
      unitChar unit :: chars (next :: rest)

/-- The units of a character. -/
def units (char : Char) : Text :=
  if char.toNat < 0x10000 then
    [UInt16.ofNat char.toNat]
  else
    [UInt16.ofNat (0xD800 + (char.toNat - 0x10000) / 0x400),
      UInt16.ofNat (0xDC00 + (char.toNat - 0x10000) % 0x400)]

/-- The text of characters. -/
def ofChars (chars : List Char) : Text :=
  chars.flatMap units

/-- `new TextEncoder().encode`. -/
def encode (text : Text) : Bytes :=
  Utf8.encode (chars text)

/-- `new TextDecoder('utf-8', { fatal: true, ignoreBOM: true }).decode`. -/
def decode (bytes : Bytes) : Option Text :=
  (Utf8.decode bytes).map ofChars

theorem unit_lt (unit : UInt16) : unit.toNat < 0x10000 :=
  unit.toNat_lt

theorem toNat_ofNat
    {value : Nat}
    (valid : value.isValidChar) :
    (Char.ofNat value).toNat = value := by
  rw [Char.ofNat, dif_pos valid]
  rfl

theorem units_unitChar
    {unit : UInt16}
    (notHigh : isHigh unit = false)
    (notLow : isLow unit = false) :
    units (unitChar unit) = [unit] := by
  have small := unit_lt unit
  have valid : unit.toNat.isValidChar := by
    simp only [isHigh, isLow, Bool.and_eq_false_iff, decide_eq_false_iff_not]
      at notHigh notLow
    simp only [Nat.isValidChar]
    omega
  have value : (Char.ofNat unit.toNat).toNat = unit.toNat :=
    toNat_ofNat valid
  rw [unitChar, notHigh, notLow]
  simp only [Bool.or_self, Bool.false_eq_true, if_false, units, value, small,
    if_true, UInt16.ofNat_toNat]

/-- The character of a surrogate pair has that pair as its units. -/
theorem units_pairChar
    {high low : UInt16}
    (isHigh_ : isHigh high = true)
    (isLow_ : isLow low = true) :
    units (pairChar high low) = [high, low] := by
  simp only [isHigh, isLow, Bool.and_eq_true, decide_eq_true_eq]
    at isHigh_ isLow_
  have valid : (0x10000 + (high.toNat - 0xD800) * 0x400 +
      (low.toNat - 0xDC00)).isValidChar := by
    simp only [Nat.isValidChar]
    omega
  have value := toNat_ofNat valid
  have first : 0xD800 + (0x10000 + (high.toNat - 0xD800) * 0x400 +
      (low.toNat - 0xDC00) - 0x10000) / 0x400 = high.toNat := by
    omega
  have second : 0xDC00 + (0x10000 + (high.toNat - 0xD800) * 0x400 +
      (low.toNat - 0xDC00) - 0x10000) % 0x400 = low.toNat := by
    omega
  have large : ¬ 0x10000 + (high.toNat - 0xD800) * 0x400 +
      (low.toNat - 0xDC00) < 0x10000 := by
    omega
  rw [pairChar, units, value, if_neg large, first, second,
    UInt16.ofNat_toNat, UInt16.ofNat_toNat]

/-- A text without lone surrogates is that of its characters. -/
theorem ofChars_chars
    {text : Text}
    (paired : lone text = false) :
    ofChars (chars text) = text := by
  fun_induction chars text with
  | case1 => rfl
  | case2 unit =>
    simp only [lone, Bool.or_eq_false_iff] at paired
    rw [ofChars, List.flatMap_cons, units_unitChar paired.1 paired.2]
    rfl
  | case3 unit next rest pair inductionHypothesis =>
    simp only [lone, pair, if_true] at paired
    rw [Bool.and_eq_true] at pair
    have later := inductionHypothesis paired
    rw [ofChars] at later
    rw [ofChars, List.flatMap_cons, units_pairChar pair.1 pair.2, later]
    rfl
  | case4 unit next rest pair inductionHypothesis =>
    rw [lone, if_neg pair, Bool.or_eq_false_iff, Bool.or_eq_false_iff] at paired
    have later := inductionHypothesis paired.2
    rw [ofChars] at later
    rw [ofChars, List.flatMap_cons, units_unitChar paired.1.1 paired.1.2, later]
    rfl

theorem decode_encode
    {text : Text}
    (paired : lone text = false) :
    decode (encode text) = some text := by
  rw [decode, encode, Utf8.decode_encode, Option.map_some, ofChars_chars paired]

end Script

end Toolkit
