import HushOS.Toolkit.Refusal

namespace Toolkit

open List

/-!
# Byte strings

Two ways bytes are written as text and back.

Base64url without padding is read strictly: a text is accepted only when it is
what encoding its bytes writes.  The one theorem a user needs is
`Base64url.decode_eq_some`: the accepted texts are exactly the encodings of
nonempty byte strings.

UTF-8 is the standard library's, over lists of bytes.
-/

/-- A byte string. -/
abbrev Bytes := List UInt8

namespace Base64url

/-- The character of a six-bit digit. -/
def charOf (digit : Nat) : Char :=
  if digit < 26 then Char.ofNat (65 + digit)
  else if digit < 52 then Char.ofNat (71 + digit)
  else if digit < 62 then Char.ofNat (digit - 4)
  else if digit = 62 then '-'
  else '_'

/-- The six-bit digit of a character, if it is in the alphabet. -/
def digitOf (char : Char) : Option Nat :=
  if 65 ≤ char.toNat ∧ char.toNat ≤ 90 then some (char.toNat - 65)
  else if 97 ≤ char.toNat ∧ char.toNat ≤ 122 then some (char.toNat - 71)
  else if 48 ≤ char.toNat ∧ char.toNat ≤ 57 then some (char.toNat + 4)
  else if char = '-' then some 62
  else if char = '_' then some 63
  else none

/-- The six-bit digits of a byte string, the last ones padded with zero bits. -/
def digits : Bytes → List Nat
  | [] => []
  | [first] =>
    [first.toNat / 4, first.toNat % 4 * 16]
  | [first, second] =>
    [first.toNat / 4,
      first.toNat % 4 * 16 + second.toNat / 16,
      second.toNat % 16 * 4]
  | first :: second :: third :: rest =>
    first.toNat / 4 ::
      (first.toNat % 4 * 16 + second.toNat / 16) ::
      (second.toNat % 16 * 4 + third.toNat / 64) ::
      third.toNat % 64 ::
      digits rest

/-- The bytes six-bit digits hold, bits left over dropped. -/
def bytesOfDigits : List Nat → Bytes
  | [] => []
  | [_] => []
  | [first, second] =>
    [UInt8.ofNat (first * 4 + second / 16)]
  | [first, second, third] =>
    [UInt8.ofNat (first * 4 + second / 16),
      UInt8.ofNat (second % 16 * 16 + third / 4)]
  | first :: second :: third :: fourth :: rest =>
    UInt8.ofNat (first * 4 + second / 16) ::
      UInt8.ofNat (second % 16 * 16 + third / 4) ::
      UInt8.ofNat (third % 4 * 64 + fourth) ::
      bytesOfDigits rest

/-- The digits of characters, when all are in the alphabet. -/
def digitsOf : List Char → Option (List Nat)
  | [] => some []
  | char :: rest =>
    match digitOf char, digitsOf rest with
    | some digit, some others => some (digit :: others)
    | _, _ => none

/-- A byte string as base64url without padding. -/
def encode (bytes : Bytes) : String :=
  String.ofList ((digits bytes).map charOf)

/--
The bytes of a base64url text: nonempty, within the alphabet, no length that
is one past a multiple of four, and exactly what encoding the bytes gives.
-/
def decode (text : String) : Option Bytes :=
  match digitsOf text.toList with
  | none => none
  | some found =>
    if found = [] ∨ found.length % 4 = 1 then
      none
    else if encode (bytesOfDigits found) = text then
      some (bytesOfDigits found)
    else
      none

theorem digitOf_charOf
    {digit : Nat}
    (small : digit < 64) :
    digitOf (charOf digit) = some digit := by
  have all : ∀ digit < 64, digitOf (charOf digit) = some digit := by
    decide
  exact all digit small

private theorem byte_lt (byte : UInt8) : byte.toNat < 256 :=
  byte.toNat_lt

theorem lt_of_mem_digits
    {bytes : Bytes}
    {digit : Nat}
    (member : digit ∈ digits bytes) :
    digit < 64 := by
  fun_induction digits bytes with
  | case1 =>
    simp at member
  | case2 first =>
    have := byte_lt first
    simp only [mem_cons, not_mem_nil, or_false] at member
    omega
  | case3 first second =>
    have := byte_lt first
    have := byte_lt second
    simp only [mem_cons, not_mem_nil, or_false] at member
    omega
  | case4 first second third rest inductionHypothesis =>
    have := byte_lt first
    have := byte_lt second
    have := byte_lt third
    simp only [mem_cons] at member
    rcases member with h | h | h | h | inRest
    · omega
    · omega
    · omega
    · omega
    · exact inductionHypothesis inRest

private theorem ofNat_eq
    {value : Nat}
    {byte : UInt8}
    (same : value = byte.toNat) :
    UInt8.ofNat value = byte := by
  subst same
  exact UInt8.ofNat_toNat

theorem bytesOfDigits_digits (bytes : Bytes) :
    bytesOfDigits (digits bytes) = bytes := by
  fun_induction digits bytes with
  | case1 =>
    rfl
  | case2 first =>
    have := byte_lt first
    simp only [bytesOfDigits]
    rw [@ofNat_eq _ first (by omega)]
  | case3 first second =>
    have := byte_lt first
    have := byte_lt second
    simp only [bytesOfDigits]
    rw [@ofNat_eq _ first (by omega),
      @ofNat_eq _ second (by omega)]
  | case4 first second third rest inductionHypothesis =>
    have := byte_lt first
    have := byte_lt second
    have := byte_lt third
    simp only [bytesOfDigits]
    rw [inductionHypothesis,
      @ofNat_eq _ first (by omega),
      @ofNat_eq _ second (by omega),
      @ofNat_eq _ third (by omega)]

theorem digitsOf_map_charOf
    {found : List Nat}
    (small : ∀ digit ∈ found, digit < 64) :
    digitsOf (found.map charOf) = some found := by
  induction found with
  | nil =>
    rfl
  | cons digit rest inductionHypothesis =>
    have restRead :=
      inductionHypothesis
        (fun later member => small later (by simp [member]))
    simp [digitsOf, digitOf_charOf (small digit (by simp)), restRead]

theorem length_digits_mod (bytes : Bytes) :
    (digits bytes).length % 4 ≠ 1 := by
  fun_induction digits bytes with
  | case1 =>
    simp
  | case2 first =>
    simp
  | case3 first second =>
    simp
  | case4 first second third rest inductionHypothesis =>
    simp only [length_cons]
    omega

theorem digits_eq_nil {bytes : Bytes} :
    digits bytes = [] ↔ bytes = [] := by
  fun_cases digits bytes <;> simp

theorem decode_encode
    {bytes : Bytes}
    (nonempty : bytes ≠ []) :
    decode (encode bytes) = some bytes := by
  have read :
      digitsOf (encode bytes).toList = some (digits bytes) := by
    rw [encode, String.toList_ofList]
    exact digitsOf_map_charOf (fun _ => lt_of_mem_digits)
  simp [decode, read, digits_eq_nil, nonempty,
    length_digits_mod, bytesOfDigits_digits]

/-- Decoding reads exactly the encodings of non-empty bytes. -/
theorem decode_eq_some
    {text : String}
    {bytes : Bytes} :
    decode text = some bytes ↔ text = encode bytes ∧ bytes ≠ [] := by
  constructor
  · intro decoded
    unfold decode at decoded
    split at decoded
    · simp at decoded
    · next found read =>
        split at decoded
        · simp at decoded
        · next shaped =>
            split at decoded
            · next written =>
                simp only [Option.some.injEq] at decoded
                subst decoded
                refine ⟨written.symm, ?_⟩
                rintro empty
                rw [empty] at written
                subst written
                simp only [encode, digits, map_nil,
                  String.toList_ofList, digitsOf,
                  Option.some.injEq] at read
                exact shaped (.inl read.symm)
            · simp at decoded
  · rintro ⟨rfl, nonempty⟩
    exact decode_encode nonempty

/-- Bytes are told by their encoding. -/
theorem encode_injective
    {first second : Bytes}
    (same : encode first = encode second) :
    first = second := by
  have read : ∀ bytes : Bytes,
      digitsOf (encode bytes).toList = some (digits bytes) := by
    intro bytes
    rw [encode, String.toList_ofList]
    exact digitsOf_map_charOf (fun _ => lt_of_mem_digits)
  have sameDigits : digits first = digits second := by
    have := read first
    rw [same, read second] at this
    exact (Option.some.inj this).symm
  rw [← bytesOfDigits_digits first, sameDigits, bytesOfDigits_digits]

theorem length_digits (bytes : Bytes) :
    (digits bytes).length = (bytes.length * 4 + 2) / 3 := by
  fun_induction digits bytes with
  | case1 =>
    simp
  | case2 first =>
    simp
  | case3 first second =>
    simp
  | case4 first second third rest inductionHypothesis =>
    simp only [length_cons, inductionHypothesis]
    omega

end Base64url

namespace Utf8

/-- Characters as UTF-8. -/
def encode (chars : List Char) : Bytes :=
  chars.flatMap String.utf8EncodeChar

/-- The characters valid UTF-8 holds; a byte-order mark is one of them. -/
def decode (bytes : Bytes) : Option (List Char) :=
  bytes.toByteArray.utf8Decode?.map Array.toList

theorem decode_encode (chars : List Char) :
    decode (encode chars) = some chars := by
  have read := utf8Decode?_utf8Encode (l := chars)
  simp only [List.utf8Encode] at read
  simp [decode, encode, read]

theorem length_utf8EncodeChar
    {char : Char}
    (ascii : char.toNat < 128) :
    (String.utf8EncodeChar char).length = 1 := by
  rw [String.length_utf8EncodeChar]
  have small : char.val ≤ 127 := by
    rw [UInt32.le_iff_toNat_le]
    exact Nat.le_of_lt_succ ascii
  simp [Char.utf8Size, small]

theorem length_encode
    {chars : List Char}
    (ascii : ∀ char ∈ chars, char.toNat < 128) :
    (encode chars).length = chars.length := by
  induction chars with
  | nil =>
    rfl
  | cons char rest inductionHypothesis =>
    have restLength :=
      inductionHypothesis
        (fun later member => ascii later (by simp [member]))
    unfold encode at restLength ⊢
    rw [flatMap_cons, length_append, restLength,
      length_utf8EncodeChar (ascii char (by simp)), length_cons,
      Nat.add_comm]

end Utf8

end Toolkit
