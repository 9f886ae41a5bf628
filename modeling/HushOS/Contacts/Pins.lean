import HushOS.Primitives

namespace HushOS

open Toolkit List

/-!
# Contact pins

A pin holds a contact's four public keys, the two lattice ones by their
digests.  Its key commitment is the fingerprint over all four, whether or not
anyone compared it; a verified pin carries that fingerprint, a first-seen one
carries none.
-/

/-- Hexadecimal digits read two at a time. -/
def hexPairs : List Char → Bytes
  | first :: second :: rest =>
    UInt8.ofNat (hexValue [first, second]) :: hexPairs rest
  | _ => []

/-- A 32-byte digest in lowercase hexadecimal, as bytes, or refused. -/
def hexBytes (hex : String) : Except CryptoError Bytes :=
  if hex.toList.length = 64 ∧ hex.toList.all isLowerHex = true then
    .ok (hexPairs hex.toList)
  else
    .error ⟨"Invalid key digest."⟩

/-- Characters four at a time, what is left over dropped. -/
def fours : List Char → List (List Char)
  | first :: second :: third :: fourth :: rest =>
    [first, second, third, fourth] :: fours rest
  | _ => []

/-- Groups of four characters, a space between each two. -/
def spaced (hex : String) : String :=
  String.ofList (List.intercalate [' '] (fours hex.toList))

/--
Bytes in canonical base64url, of exactly `length` when given, or refused.  No
text at all is no bytes.
-/
def canonicalBytes (value : String) (length : Option Nat) :
    Except CryptoError Bytes :=
  match if value = "" then some [] else Base64url.decode value with
  | some bytes =>
    if length.all (bytes.length = ·) then
      .ok bytes
    else
      .error ⟨"Invalid key."⟩
  | none => .error ⟨"Invalid key."⟩

/-- A 32-byte key in canonical base64url, or refused. -/
def canonicalKey (value : String) : Except CryptoError Bytes :=
  match Base64url.decode value with
  | some bytes =>
    if bytes.length = 32 then .ok bytes else .error ⟨"Invalid key."⟩
  | none => .error ⟨"Invalid key."⟩

/-- The key fields of a pin but its fingerprint; a field may be missing. -/
structure KeyFields where
  keyVersion : Option Int
  encryptionPublicKey : String
  signingPublicKey : String
  mlDsaPublicKeyHash : Option String
  kemPublicKeyHash : Option String
  deriving DecidableEq, Repr

/-- The key fields of a contact pin. -/
structure PinKeys extends KeyFields where
  fingerprint : String
  deriving DecidableEq, Repr

/-- What a pin stands for. -/
inductive PinTrust where
  | verified
  | seen
  | legacy
  | invalid
  deriving DecidableEq, Repr

/-- Whether a pin is of keys a person's devices act on. -/
def PinTrust.held (trust : PinTrust) : Bool :=
  trust = .verified || trust = .seen

/-- The keys a server serves for an identity. -/
structure ServedIdentity where
  keyVersion : Int
  encryptionPublicKey : String
  signingPublicKey : String
  mlDsaPublicKey : Option String
  kemPublicKey : Option String
  deriving DecidableEq, Repr

/-- The kinds of pin that are made of served keys. -/
inductive PinForm where
  | verified
  | seen
  deriving DecidableEq, Repr

/-- A text that may be missing, missing too where it is empty. -/
def given : Option String → Option String
  | some "" => none
  | value => value

namespace Primitives

variable (P : Primitives)

/-- The version 3 fingerprint: twenty hashed bytes, in groups of four digits. -/
def fingerprint
    (encryptionPublicKey signingPublicKey mlDsaPublicKeyDigest
      kemPublicKeyDigest : Bytes) :
    Except CryptoError String :=
  if encryptionPublicKey.length ≠ 32 ∨ signingPublicKey.length ≠ 32 ∨
      mlDsaPublicKeyDigest.length ≠ 32 ∨ kemPublicKeyDigest.length ≠ 32 then
    .error ⟨"Invalid identity key."⟩
  else
    let input := Utf8.encode "hushos/identity/fingerprint/v3".toList ++
      encryptionPublicKey ++ signingPublicKey ++ mlDsaPublicKeyDigest ++
      kemPublicKeyDigest
    .ok (spaced (hexOf ((P.sha256 input).take 20)))

/-- The fingerprint over a pin's four keys, if the two digests are given. -/
def fingerprintOf (pin : KeyFields) : Except CryptoError String :=
  match given pin.mlDsaPublicKeyHash, given pin.kemPublicKeyHash with
  | some mlDsaPublicKeyHash, some kemPublicKeyHash => do
      let encryption ← canonicalKey pin.encryptionPublicKey
      let signing ← canonicalKey pin.signingPublicKey
      let mlDsa ← hexBytes mlDsaPublicKeyHash
      let kem ← hexBytes kemPublicKeyHash
      P.fingerprint encryption signing mlDsa kem
  | _, _ => .error ⟨"Invalid key digest."⟩

/-- Whether a pin carries the fingerprint over its own four keys. -/
def pinVerified (pin : PinKeys) : Bool :=
  if pin.signingPublicKey = "" then
    false
  else
    match P.fingerprintOf pin.toKeyFields with
    | .ok print => print = pin.fingerprint
    | .error _ => false

/-- The key commitment of a pin; none where a key field is malformed. -/
def keyCommitment (pin : KeyFields) : Option String :=
  (P.fingerprintOf pin).toOption

/-- What a pin stands for. -/
def pinTrust (pin : PinKeys) : PinTrust :=
  if given pin.mlDsaPublicKeyHash = none then
    .legacy
  else if P.pinVerified pin then
    .verified
  else if pin.fingerprint = "" ∧ P.keyCommitment pin.toKeyFields ≠ none then
    .seen
  else
    .invalid

/-- The digest of a served key, or nothing where it is not canonical. -/
def servedKeyDigest (value : String) : Option String :=
  (canonicalBytes value none).toOption.map P.keyDigest

/-- A safe integer from 1 on, or refused. -/
def servedVersion (keyVersion : Int) : Except CryptoError Int :=
  if 1 ≤ keyVersion ∧ keyVersion ≤ maxSafe then
    .ok keyVersion
  else
    .error (invalid "key version")

/-- The key fields of served keys, or refused. -/
def keysOfServed (served : ServedIdentity) : Except CryptoError KeyFields := do
  let mlDsa ← canonicalBytes (served.mlDsaPublicKey.getD "")
    (some ML_DSA_PUBLIC_KEY_BYTES)
  let kem ← canonicalBytes (served.kemPublicKey.getD "")
    (some KEM_PUBLIC_KEY_BYTES)
  let keyVersion ← servedVersion served.keyVersion
  .ok
    { keyVersion := some keyVersion
      encryptionPublicKey := served.encryptionPublicKey
      signingPublicKey := served.signingPublicKey
      mlDsaPublicKeyHash := some (P.keyDigest mlDsa)
      kemPublicKeyHash := some (P.keyDigest kem) }

/-- A pin of served keys, of a kind, or refused. -/
def pinKeysOfServed (served : ServedIdentity) (form : PinForm) :
    Except CryptoError PinKeys := do
  let keys ← withReason ⟨"Invalid identity key."⟩ (P.keysOfServed served)
  match P.keyCommitment keys with
  | none => .error ⟨"Invalid identity key."⟩
  | some commitment =>
    .ok
      { toKeyFields := keys
        fingerprint := if form = .verified then commitment else "" }

end Primitives

theorem spaced_ne_empty
    {hex : String}
    (long : 4 ≤ hex.toList.length) :
    spaced hex ≠ "" := by
  match read : hex.toList, long with
  | first :: second :: third :: fourth :: rest, _ =>
    intro empty
    have chars := congrArg String.toList empty
    rw [spaced, read, fours, String.toList_ofList] at chars
    cases further : fours rest <;> simp [further] at chars

theorem length_hexOf (bytes : Bytes) :
    (hexOf bytes).toList.length = 2 * bytes.length := by
  rw [hexOf, String.toList_ofList]
  induction bytes with
  | nil =>
    rfl
  | cons byte rest inductionHypothesis =>
    rw [flatMap_cons, length_append, inductionHypothesis,
      length_cons, hexPair]
    simp
    ring

set_option maxRecDepth 4000 in
theorem hexPair_spec (byte : UInt8) :
    (hexPair byte).all isLowerHex = true ∧
      UInt8.ofNat (hexValue (hexPair byte)) = byte := by
  have all : ∀ number < 256,
      ([Nat.digitChar (number / 16), Nat.digitChar (number % 16)].all
        isLowerHex = true) ∧
      hexValue [Nat.digitChar (number / 16), Nat.digitChar (number % 16)] =
        number := by
    decide
  obtain ⟨digits, value⟩ := all byte.toNat byte.toNat_lt
  refine ⟨digits, ?_⟩
  rw [hexPair, value]
  exact UInt8.ofNat_toNat

/-- The hex of 32 bytes is read back as those bytes. -/
theorem hexBytes_hexOf
    {bytes : Bytes}
    (sized : bytes.length = 32) :
    hexBytes (hexOf bytes) = .ok bytes := by
  have long : (hexOf bytes).toList.length = 64 := by
    rw [length_hexOf, sized]
  have digits : (hexOf bytes).toList.all isLowerHex = true := by
    rw [hexOf, String.toList_ofList, all_flatMap, all_eq_true]
    exact fun byte _ => (hexPair_spec byte).1
  have read : ∀ bytes : Bytes, hexPairs (bytes.flatMap hexPair) = bytes := by
    intro bytes
    induction bytes with
    | nil =>
      rfl
    | cons byte rest inductionHypothesis =>
      calc hexPairs ((byte :: rest).flatMap hexPair)
          = UInt8.ofNat (hexValue (hexPair byte)) ::
              hexPairs (rest.flatMap hexPair) := rfl
        _ = byte :: rest := by
            rw [(hexPair_spec byte).2, inductionHypothesis]
  rw [hexBytes, if_pos ⟨long, digits⟩, hexOf, String.toList_ofList, read]

theorem canonicalKey_encode
    {bytes : Bytes}
    (sized : bytes.length = 32) :
    canonicalKey (Base64url.encode bytes) = .ok bytes := by
  have nonempty : bytes ≠ [] := by
    rintro rfl
    simp at sized
  rw [canonicalKey, Base64url.decode_eq_some.mpr ⟨rfl, nonempty⟩]
  simp [sized]

namespace Primitives

variable {P : Primitives}

variable {print : String} {pin : KeyFields}

theorem fingerprint_ne_empty
    {encryption signing mlDsa kem : Bytes}
    (made : P.fingerprint encryption signing mlDsa kem = .ok print) :
    print ≠ "" := by
  unfold fingerprint at made
  split at made
  · simp at made
  · simp only [Except.ok.injEq] at made
    subst made
    apply spaced_ne_empty
    rw [length_hexOf, length_take, P.length_sha256]
    decide

theorem fingerprintOf_ne_empty
    (made : P.fingerprintOf pin = .ok print) :
    print ≠ "" := by
  unfold fingerprintOf at made
  split at made
  · simp only [bind_eq_ok] at made
    obtain ⟨encryption, _, signing, _, mlDsa, _, kem, _, computed⟩ := made
    exact fingerprint_ne_empty computed
  · simp at made

theorem given_of_fingerprintOf
    (made : P.fingerprintOf pin = .ok print) :
    given pin.mlDsaPublicKeyHash ≠ none := by
  intro missing
  simp [fingerprintOf, missing] at made

theorem signing_ne_empty
    (made : P.fingerprintOf pin = .ok print) :
    pin.signingPublicKey ≠ "" := by
  intro empty
  unfold fingerprintOf at made
  split at made
  · simp only [bind_eq_ok] at made
    obtain ⟨_, _, signing, read, _⟩ := made
    rw [empty] at read
    simp [canonicalKey, Base64url.decode, Base64url.digitsOf] at read
  · simp at made

theorem keyCommitment_eq_some
    {commitment : String} :
    P.keyCommitment pin = some commitment ↔
      P.fingerprintOf pin = .ok commitment := by
  unfold keyCommitment
  cases P.fingerprintOf pin <;> simp [Except.toOption]

theorem commitment_ne_empty
    {commitment : String}
    (committed : P.keyCommitment pin = some commitment) :
    commitment ≠ "" :=
  fingerprintOf_ne_empty (keyCommitment_eq_some.mp committed)

theorem keyCommitment_eq
    {first second : KeyFields}
    (encryption : first.encryptionPublicKey = second.encryptionPublicKey)
    (signing : first.signingPublicKey = second.signingPublicKey)
    (mlDsa : first.mlDsaPublicKeyHash = second.mlDsaPublicKeyHash)
    (kem : first.kemPublicKeyHash = second.kemPublicKeyHash) :
    P.keyCommitment first = P.keyCommitment second := by
  unfold keyCommitment fingerprintOf
  rw [encryption, signing, mlDsa, kem]

theorem pinVerified_iff {pin : PinKeys} :
    P.pinVerified pin = true ↔
      P.keyCommitment pin.toKeyFields = some pin.fingerprint := by
  rw [keyCommitment_eq_some]
  unfold pinVerified
  constructor
  · intro verified
    split at verified
    · simp at verified
    · split at verified
      · next print made =>
          rw [made, of_decide_eq_true verified]
      · simp at verified
  · intro made
    rw [if_neg (signing_ne_empty made), made]
    exact decide_eq_true rfl

theorem pinTrust_eq_verified {pin : PinKeys} :
    P.pinTrust pin = .verified ↔
      P.keyCommitment pin.toKeyFields = some pin.fingerprint := by
  rw [← pinVerified_iff]
  unfold pinTrust
  constructor
  · intro trust
    split at trust
    · simp at trust
    · split at trust
      · assumption
      · split at trust <;> simp at trust
  · intro verified
    have made := keyCommitment_eq_some.mp (pinVerified_iff.mp verified)
    rw [if_neg (given_of_fingerprintOf made), if_pos verified]

/-- A pin is only seen when it has keys and no compared fingerprint. -/
theorem pinTrust_eq_seen {pin : PinKeys} :
    P.pinTrust pin = .seen ↔
      pin.fingerprint = "" ∧
        ∃ commitment, P.keyCommitment pin.toKeyFields = some commitment := by
  constructor
  · intro trust
    unfold pinTrust at trust
    split at trust
    · simp at trust
    · split at trust
      · simp at trust
      · split at trust
        · next formed =>
            exact ⟨formed.1, Option.ne_none_iff_exists'.mp formed.2⟩
        · simp at trust
  · rintro ⟨bare, commitment, committed⟩
    have made := keyCommitment_eq_some.mp committed
    have unverified : ¬ P.pinVerified pin = true := by
      intro verified
      have same := pinVerified_iff.mp verified
      rw [bare] at same
      exact commitment_ne_empty same rfl
    have formed : P.keyCommitment pin.toKeyFields ≠ none := by
      rw [committed]
      exact Option.some_ne_none _
    rw [pinTrust, if_neg (given_of_fingerprintOf made), if_neg unverified,
      if_pos ⟨bare, formed⟩]

theorem held_iff {trust : PinTrust} :
    trust.held = true ↔ trust = .verified ∨ trust = .seen := by
  simp [PinTrust.held]

theorem commitment_of_held
    {pin : PinKeys}
    (held : (P.pinTrust pin).held = true) :
    ∃ commitment, P.keyCommitment pin.toKeyFields = some commitment := by
  rcases held_iff.mp held with verified | seen
  · exact ⟨pin.fingerprint, pinTrust_eq_verified.mp verified⟩
  · exact (pinTrust_eq_seen.mp seen).2

end Primitives

end HushOS
