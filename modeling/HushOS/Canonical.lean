import HushOS.Toolkit.JsonRoundTrip
import HushOS.Toolkit.OrderedMap
import HushOS.Toolkit.TextOrder

namespace HushOS

open Toolkit List

/-!
# The canonical encoding of group statements

Every statement is a compact JSON array built of values the field checks let
through, so one statement has one encoding on every client, and a verifier
rebuilds the bytes from the parsed fields and refuses anything that differs.

The field checks take any plain value, as they take `unknown` in the source,
and give the value back typed.
-/

/-- A refusal, with the message its reader is shown. -/
structure CryptoError where
  message : String
  deriving DecidableEq, Repr

def MAX_STATEMENT_BYTES : Nat := 4 * 1024 * 1024

/-- The largest safe integer, `2^53 - 1`. -/
abbrev maxSafe : Nat := Json.maxSafe

/-- Printable ASCII other than the quote and the backslash. -/
def isPlain (char : Char) : Bool :=
  0x20 ≤ char.toNat && char.toNat ≤ 0x7e && char ≠ '"' && char ≠ '\\'

mutual

/-- Whether a value keeps the statement grammar at a nesting depth. -/
def grammatical : Json.Plain → Nat → Bool
  | .text value, _ => value.toList.all isPlain
  | .number value, _ => value ≤ maxSafe
  | .list items, depth => depth < 4 && allGrammatical items (depth + 1)

/-- Whether every one of some values keeps the statement grammar. -/
def allGrammatical : List Json.Plain → Nat → Bool
  | [], _ => true
  | item :: rest, depth => grammatical item depth && allGrammatical rest depth

end

/-- A lowercase hexadecimal digit. -/
def isLowerHex (char : Char) : Bool :=
  char.isDigit || (0x61 ≤ char.toNat && char.toNat ≤ 0x66)

/-- Whether a text is a lowercase hyphenated UUID. -/
def isUuid (text : String) : Bool :=
  text.toList.length = 36 &&
    text.toList.zipIdx.all fun (char, index) =>
      if index ∈ [8, 13, 18, 23] then char = '-' else isLowerHex char

/-- Whether a text is canonical base64url of exactly `length` bytes. -/
def isBytesOf (text : String) (length : Nat) : Bool :=
  match Base64url.decode text with
  | some bytes => bytes.length = length
  | none => false

/-- Whether a text is a digest as statements carry it: 32 bytes in base64url. -/
def isDigest (text : String) : Bool :=
  isBytesOf text 32

/-- What a failed field check says. -/
def invalid (what : String) : CryptoError :=
  ⟨s!"Invalid {what}."⟩

/-- A lowercase hyphenated UUID, or refused. -/
def uuid (value : Json.Plain) (what : String) : Except CryptoError String :=
  match value with
  | .text text =>
    if isUuid text then .ok text else .error (invalid what)
  | _ => .error (invalid what)

/-- An integer from 1 to `2^53 - 1`, or refused. -/
def integer (value : Json.Plain) (what : String) : Except CryptoError Nat :=
  match value with
  | .number number =>
    if 1 ≤ number ∧ number ≤ maxSafe then
      .ok number
    else
      .error (invalid what)
  | _ => .error (invalid what)

/-- Canonical base64url of exactly `length` bytes, as given, or refused. -/
def bytesOf (value : Json.Plain) (length : Nat) (what : String) :
    Except CryptoError String :=
  match value with
  | .text text =>
    if isBytesOf text length then .ok text else .error (invalid what)
  | _ => .error (invalid what)

/-- A SHA-256 digest as a statement carries it, or refused. -/
def digestOf (value : Json.Plain) (what : String) :
    Except CryptoError String :=
  bytesOf value 32 what

/-- One of `allowed`, by its name, or refused. -/
def oneOf
    (value : Json.Plain)
    (name : α → String)
    (allowed : List α)
    (what : String) :
    Except CryptoError α :=
  match value with
  | .text text =>
    match allowed.find? (fun item => name item = text) with
    | some item => .ok item
    | none => .error (invalid what)
  | _ => .error (invalid what)

/-- Strictly ascending, so neither order nor duplicates can vary, or refused. -/
def ascending (values : List String) (what : String) :
    Except CryptoError (List String) :=
  if values.IsChain Before then .ok values else .error (invalid what)

/-- The bytes of a statement's parts, or refused outside the grammar. -/
def encodeStatement (parts : List Json.Plain) : Except CryptoError Bytes := do
  refuseIf (grammatical (.list parts) 0 = false) (invalid "statement")
  let bytes := Utf8.encode (Json.compact (.list parts))
  refuseIf (MAX_STATEMENT_BYTES < bytes.length) (invalid "statement")
  .ok bytes

/-- The parts a statement's bytes hold, when they are its one encoding. -/
def readStatement (bytes : Bytes) : Option (List Json.Plain) :=
  if bytes.length ≤ MAX_STATEMENT_BYTES then
    match ((Utf8.decode bytes).bind Json.parse).bind Json.Value.plain? with
    | some (.list parts) =>
      if grammatical (.list parts) 0 = true ∧
          Utf8.encode (Json.compact (.list parts)) = bytes then
        some parts
      else
        none
    | _ => none
  else
    none

/-- The parts a statement's bytes hold, or refused. -/
def parseStatement (bytes : Bytes) (what : String) :
    Except CryptoError (List Json.Plain) :=
  match readStatement bytes with
  | some parts => .ok parts
  | none => .error (invalid what)

/-- Refuse bytes that are not the encoding rebuilt from what was parsed. -/
def requireCanonical (served rebuilt : Bytes) (what : String) :
    Except CryptoError Unit :=
  refuseIf (served ≠ rebuilt) (invalid what)

variable {value : Json.Plain} {what : String} {bytes : Bytes} {parts : List Json.Plain}

@[simp] theorem uuid_eq_ok
    {what text : String} :
    uuid value what = .ok text ↔
      value = .text text ∧ isUuid text = true := by
  cases value with
  | text found =>
    by_cases shaped : isUuid found
    · simp only [uuid, shaped, ↓reduceIte, Except.ok.injEq,
        Json.Plain.text.injEq]
      constructor
      · rintro rfl
        exact ⟨rfl, shaped⟩
      · exact And.left
    · simp only [uuid, shaped, Bool.false_eq_true, ↓reduceIte,
        reduceCtorEq, Json.Plain.text.injEq, false_iff, not_and]
      rintro rfl
      exact shaped
  | number found =>
    simp [uuid]
  | list found =>
    simp [uuid]

@[simp] theorem integer_eq_ok
    {number : Nat} :
    integer value what = .ok number ↔
      value = .number number ∧ 1 ≤ number ∧ number ≤ maxSafe := by
  cases value with
  | text found =>
    simp [integer]
  | number found =>
    by_cases inside : 1 ≤ found ∧ found ≤ maxSafe
    · simp only [integer, inside, ↓reduceIte, Except.ok.injEq,
        Json.Plain.number.injEq, and_self]
      constructor
      · rintro rfl
        exact ⟨rfl, inside⟩
      · exact And.left
    · simp only [integer, inside, ↓reduceIte, reduceCtorEq,
        Json.Plain.number.injEq, false_iff, not_and_or]
      by_cases same : found = number
      · subst same
        exact .inr (not_and_or.mp inside)
      · exact .inl same
  | list found =>
    simp [integer]

@[simp] theorem bytesOf_eq_ok
    {length : Nat}
    {what text : String} :
    bytesOf value length what = .ok text ↔
      value = .text text ∧ isBytesOf text length = true := by
  cases value with
  | text found =>
    by_cases shaped : isBytesOf found length
    · simp only [bytesOf, shaped, ↓reduceIte, Except.ok.injEq,
        Json.Plain.text.injEq]
      constructor
      · rintro rfl
        exact ⟨rfl, shaped⟩
      · exact And.left
    · simp only [bytesOf, shaped, Bool.false_eq_true, ↓reduceIte,
        reduceCtorEq, Json.Plain.text.injEq, false_iff, not_and]
      rintro rfl
      exact shaped
  | number found =>
    simp [bytesOf]
  | list found =>
    simp [bytesOf]

@[simp] theorem digestOf_eq_ok
    {what text : String} :
    digestOf value what = .ok text ↔
      value = .text text ∧ isDigest text = true :=
  bytesOf_eq_ok

@[simp] theorem ascending_eq_ok
    {values result : List String}
    {what : String} :
    ascending values what = .ok result ↔
      values.Pairwise Before ∧ result = values := by
  rw [← isChain_iff_pairwise]
  unfold ascending
  split
  · next sorted =>
      simp only [Except.ok.injEq, sorted, true_and]
      exact eq_comm
  · next unsorted =>
      simp [unsorted]

theorem isBytesOf_iff
    {text : String}
    {length : Nat} :
    isBytesOf text length = true ↔
      ∃ bytes : Bytes,
        text = Base64url.encode bytes ∧ bytes ≠ [] ∧ bytes.length = length := by
  unfold isBytesOf
  cases decoded : Base64url.decode text with
  | none =>
    simp only [Bool.false_eq_true, false_iff, not_exists, not_and]
    intro bytes written nonempty
    rw [Base64url.decode_eq_some.mpr ⟨written, nonempty⟩] at decoded
    simp at decoded
  | some bytes =>
    obtain ⟨written, nonempty⟩ := Base64url.decode_eq_some.mp decoded
    simp only [decide_eq_true_eq]
    constructor
    · intro sized
      exact ⟨bytes, written, nonempty, sized⟩
    · rintro ⟨other, otherWritten, _, sized⟩
      rw [written] at otherWritten
      rw [Base64url.encode_injective otherWritten, sized]

theorem isBytesOf_encode
    {length : Nat}
    (nonempty : bytes ≠ [])
    (sized : bytes.length = length) :
    isBytesOf (Base64url.encode bytes) length = true :=
  isBytesOf_iff.mpr ⟨bytes, rfl, nonempty, sized⟩

/-- A value is one of the allowed when it is the name of one. -/
theorem oneOf_eq_ok
    {name : α → String}
    {allowed : List α}
    (distinct : Function.Injective name)
    {item : α} :
    oneOf value name allowed what = .ok item ↔
      value = .text (name item) ∧ item ∈ allowed := by
  cases value with
  | text found =>
    have lookup :
        allowed.find? (fun other => name other = found) = some item ↔
          found = name item ∧ item ∈ allowed := by
      constructor
      · intro chosen
        have named := find?_some chosen
        exact ⟨by simpa [eq_comm] using named,
          mem_of_find?_eq_some chosen⟩
      · rintro ⟨rfl, member⟩
        cases chosen : allowed.find? (fun other => name other = name item) with
        | none =>
          have missing := find?_eq_none.mp chosen item member
          simp at missing
        | some other =>
          have named := find?_some chosen
          simp only [decide_eq_true_eq] at named
          rw [distinct named]
    unfold oneOf
    cases chosen : allowed.find? (fun other => name other = found) with
    | none =>
      rw [chosen] at lookup
      simpa [chosen] using lookup
    | some other =>
      rw [chosen] at lookup
      simpa [chosen] using lookup
  | number found =>
    simp [oneOf]
  | list found =>
    simp [oneOf]

mutual

theorem printable_of_grammatical
    (plain : Json.Plain)
    (depth : Nat)
    (kept : grammatical plain depth = true) :
    plain.Printable := by
  cases plain with
  | text value =>
    intro char member
    have found := all_eq_true.mp kept char member
    simp only [isPlain, Bool.and_eq_true, decide_eq_true_eq] at found
    exact ⟨found.1.1.1, found.1.2, found.2⟩
  | number value =>
    simp only [grammatical, decide_eq_true_eq] at kept
    exact kept
  | list items =>
    simp only [grammatical, Bool.and_eq_true] at kept
    exact itemsPrintable_of_allGrammatical items (depth + 1) kept.2

theorem itemsPrintable_of_allGrammatical
    (items : List Json.Plain)
    (depth : Nat)
    (kept : allGrammatical items depth = true) :
    Json.ItemsPrintable items := by
  match items with
  | [] =>
    trivial
  | item :: rest =>
    simp only [allGrammatical, Bool.and_eq_true] at kept
    exact ⟨printable_of_grammatical item depth kept.1,
      itemsPrintable_of_allGrammatical rest depth kept.2⟩

end

/-- Parts are encoded when they keep to grammar and size. -/
theorem encodeStatement_eq_ok
    {bytes : Bytes} :
    encodeStatement parts = .ok bytes ↔
      grammatical (.list parts) 0 = true ∧
        bytes = Utf8.encode (Json.compact (.list parts)) ∧
        bytes.length ≤ MAX_STATEMENT_BYTES := by
  simp only [encodeStatement, bind_eq_ok, exists_unit, refuseIf_eq_ok,
    Bool.not_eq_false, Except.ok.injEq, Nat.not_lt]
  constructor
  · rintro ⟨kept, short, rfl⟩
    exact ⟨kept, rfl, short⟩
  · rintro ⟨kept, rfl, short⟩
    exact ⟨kept, short, rfl⟩

theorem ne_nil_of_encodeStatement
    (encoded : encodeStatement parts = .ok bytes) :
    bytes ≠ [] := by
  obtain ⟨_, rfl, _⟩ := encodeStatement_eq_ok.mp encoded
  have opening : (String.utf8EncodeChar '[').length = 1 :=
    Utf8.length_utf8EncodeChar (by decide)
  intro empty
  simp only [Json.compact, Utf8.encode, flatMap_cons,
    append_eq_nil_iff] at empty
  simp [empty.1] at opening

/-- What is read as a statement is encoded as it was. -/
theorem encodeStatement_of_readStatement
    (read : readStatement bytes = some parts) :
    encodeStatement parts = .ok bytes := by
  unfold readStatement at read
  split at read
  · next short =>
      split at read
      · next found _ =>
          split at read
          · next kept =>
              simp only [Option.some.injEq] at read
              subst read
              exact encodeStatement_eq_ok.mpr
                ⟨kept.1, kept.2.symm, short⟩
          · simp at read
      · simp at read
  · simp at read

theorem readStatement_of_encodeStatement
    (encoded : encodeStatement parts = .ok bytes) :
    readStatement bytes = some parts := by
  obtain ⟨kept, rfl, short⟩ := encodeStatement_eq_ok.mp encoded
  have printable := printable_of_grammatical (.list parts) 0 kept
  have readBack := Json.parse_compact_plain printable
  simp [readStatement, short, Utf8.decode_encode, readBack, kept]

/-- Parsing reads exactly what encoding writes. -/
theorem parseStatement_eq_ok
    {parts : List Json.Plain} :
    parseStatement bytes what = .ok parts ↔
      encodeStatement parts = .ok bytes := by
  constructor
  · intro accepted
    unfold parseStatement at accepted
    split at accepted
    · next found read =>
        simp only [Except.ok.injEq] at accepted
        subst accepted
        exact encodeStatement_of_readStatement read
    · simp at accepted
  · intro encoded
    simp [parseStatement, readStatement_of_encodeStatement encoded]

theorem encodeStatement_injective
    {first second : List Json.Plain}
    (firstEncoded : encodeStatement first = .ok bytes)
    (secondEncoded : encodeStatement second = .ok bytes) :
    first = second := by
  have firstRead := readStatement_of_encodeStatement firstEncoded
  rw [readStatement_of_encodeStatement secondEncoded] at firstRead
  exact (Option.some.inj firstRead).symm

end HushOS
