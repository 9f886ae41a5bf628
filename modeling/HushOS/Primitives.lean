import HushOS.Canonical

namespace HushOS

open Toolkit

/-!
# The cryptography underneath

SHA-256, HKDF-SHA-256, the two signature schemes and the BIP-39 word list come
from libraries outside this repository, so they are parameters here: a
`Primitives` is any choice of them with the lengths they document.

What the repository builds of them (digests as statements carry them, hybrid
and group signatures, twelve words) follows the source.
-/

/-- The libraries' functions, with the lengths they document. -/
structure Primitives where
  sha256 : Bytes → Bytes
  length_sha256 : ∀ message, (sha256 message).length = 32
  /-- `crypto_sign_verify_detached`: signature, message, public key. -/
  ed25519Verify : Bytes → Bytes → Bytes → Bool
  /-- `ml_dsa65.verify`: signature, message, public key, context. -/
  mlDsa65Verify : Bytes → Bytes → Bytes → Bytes → Bool
  /-- HKDF-SHA-256 with a zero salt, to 32 bytes: key, info. -/
  hkdf : Bytes → Bytes → Bytes
  length_hkdf : ∀ key info, (hkdf key info).length = 32
  /-- The BIP-39 English list. -/
  wordlist : List String
  length_wordlist : wordlist.length = 2048
  spaceless_wordlist :
    ∀ word ∈ wordlist, word ≠ "" ∧ ' ' ∉ word.toList

def SIGNATURE_BYTES : Nat := 64

def ML_DSA_PUBLIC_KEY_BYTES : Nat := 1952

def ML_DSA_SIGNATURE_BYTES : Nat := 3309

def KEM_PUBLIC_KEY_BYTES : Nat := 1184

def HYBRID_SIGNATURE_BYTES : Nat := SIGNATURE_BYTES + ML_DSA_SIGNATURE_BYTES

def IDENTITY_SIGNATURE_CONTEXT : String := "hushos/identity/v1"

def GROUP_SIGNATURE_CONTEXT : String := "hushos/group/v1"

/-- Bytes of a canonical base64url text of exactly `length` bytes. -/
def decode (value : String) (length : Nat) : Except CryptoError Bytes :=
  match Base64url.decode value with
  | some bytes =>
    if bytes.length = length then
      .ok bytes
    else
      .error ⟨"Invalid key encoding."⟩
  | none => .error ⟨"Invalid key encoding."⟩

/-- The group key's public halves, base64url. -/
structure GroupPublicKey where
  ed25519PublicKey : String
  mlDsaPublicKey : String
  deriving DecidableEq, Repr

/-- A group signature: valid only if both halves verify. -/
structure GroupSignature where
  ed25519 : Bytes
  mlDsa : Bytes
  deriving DecidableEq, Repr

/-- Whether two group keys are one, both halves alike. -/
def sameGroupKey (first second : GroupPublicKey) : Bool :=
  first.ed25519PublicKey = second.ed25519PublicKey &&
    first.mlDsaPublicKey = second.mlDsaPublicKey

/-- A person's public signing keys. -/
structure HybridPublicKey where
  signingPublicKey : Bytes
  mlDsaPublicKey : Bytes
  deriving DecidableEq, Repr

/-- The two lowercase hexadecimal digits of a byte. -/
def hexPair (byte : UInt8) : List Char :=
  [Nat.digitChar (byte.toNat / 16), Nat.digitChar (byte.toNat % 16)]

/-- Bytes in lowercase hexadecimal. -/
def hexOf (bytes : Bytes) : String :=
  String.ofList (bytes.flatMap hexPair)

/-- The value of a lowercase hexadecimal digit. -/
def hexDigitValue (char : Char) : Nat :=
  if char.isDigit then char.toNat - 48 else char.toNat - 87

/-- The number hexadecimal digits write, most significant first. -/
def hexValue (digits : List Char) : Nat :=
  digits.foldl (fun value char => 16 * value + hexDigitValue char) 0

def FINGERPRINT_WORDS : Nat := 12

/-- A number in eight bytes, most significant first. -/
def bigEndian64 (value : Nat) : Bytes :=
  (List.range 8).map fun index => UInt8.ofNat (value / 256 ^ (7 - index))

namespace Primitives

variable (P : Primitives)

/-- SHA-256 as statements carry it, base64url without padding. -/
def digest (bytes : Bytes) : String :=
  Base64url.encode (P.sha256 bytes)

/-- SHA-256 of a public key in hexadecimal, as pins keep it. -/
def keyDigest (publicKey : Bytes) : String :=
  hexOf (P.sha256 publicKey)

/-- Whether an Ed25519 signature holds; anything malformed does not. -/
def verifyStatement (message signature publicKey : Bytes) : Bool :=
  signature.length = SIGNATURE_BYTES && publicKey.length = 32 &&
    P.ed25519Verify signature message publicKey

/-- Whether an ML-DSA signature holds; anything malformed does not. -/
def mlDsaVerify
    (signature message publicKey : Bytes)
    (context : String) :
    Bool :=
  signature.length = ML_DSA_SIGNATURE_BYTES &&
    publicKey.length = ML_DSA_PUBLIC_KEY_BYTES &&
    P.mlDsa65Verify signature message publicKey (Utf8.encode context.toList)

/-- Whether both halves of a person's hybrid signature hold. -/
def verifyHybrid
    (message signature : Bytes)
    (keys : HybridPublicKey) :
    Bool :=
  signature.length = HYBRID_SIGNATURE_BYTES &&
    P.verifyStatement message (signature.take SIGNATURE_BYTES)
      keys.signingPublicKey &&
    P.mlDsaVerify (signature.drop SIGNATURE_BYTES) message
      keys.mlDsaPublicKey IDENTITY_SIGNATURE_CONTEXT

/-- Whether both halves of a group signature hold under a group key. -/
def verifyGroup
    (message : Bytes)
    (signature : GroupSignature)
    (key : GroupPublicKey) :
    Bool :=
  if signature.ed25519.length ≠ SIGNATURE_BYTES ∨
      signature.mlDsa.length ≠ ML_DSA_SIGNATURE_BYTES then
    false
  else
    match decode key.ed25519PublicKey 32,
        decode key.mlDsaPublicKey ML_DSA_PUBLIC_KEY_BYTES with
    | .ok ed25519, .ok mlDsa =>
      P.verifyStatement message signature.ed25519 ed25519 &&
        P.mlDsaVerify signature.mlDsa message mlDsa GROUP_SIGNATURE_CONTEXT
    | _, _ => false

/-- What a pin keeps of a group key: the digest of its two halves. -/
def groupKeyDigest (key : GroupPublicKey) : Except CryptoError String := do
  let ed25519 ← bytesOf (.text key.ed25519PublicKey) 32 "group key"
  let mlDsa ←
    bytesOf (.text key.mlDsaPublicKey) ML_DSA_PUBLIC_KEY_BYTES "group key"
  let ed25519 ← decode ed25519 32
  let mlDsa ← decode mlDsa ML_DSA_PUBLIC_KEY_BYTES
  .ok (P.digest (ed25519 ++ mlDsa))

/-- A fingerprint's first 132 bits as words, eleven bits a word. -/
def fingerprintWords (fingerprint : String) :
    Except CryptoError (List String) :=
  let hex := fingerprint.toList.filter (· ≠ ' ')
  if hex.length = 40 ∧ hex.all isLowerHex = true then
    let bits := hexValue hex / 2 ^ 28
    .ok ((List.range FINGERPRINT_WORDS).map fun index =>
      P.wordlist.getD
        (bits / 2048 ^ (FINGERPRINT_WORDS - 1 - index) % 2048) "")
  else
    .error ⟨"Invalid fingerprint."⟩

/-- The words of a domain-separated input's first 160 hashed bits. -/
def wordsOf (input : Bytes) : Except CryptoError (List String) :=
  P.fingerprintWords (hexOf ((P.sha256 input).take 20))

theorem decode_isOk
    {value : String}
    {length : Nat} :
    (∃ bytes, decode value length = .ok bytes) ↔
      isBytesOf value length = true := by
  unfold decode isBytesOf
  cases Base64url.decode value with
  | none =>
    simp
  | some bytes =>
    by_cases sized : bytes.length = length <;> simp [sized]

theorem encode_of_decode
    {value : String}
    {length : Nat}
    {bytes : Bytes}
    (decoded : decode value length = .ok bytes) :
    value = Base64url.encode bytes ∧ bytes.length = length := by
  unfold decode at decoded
  split at decoded
  · next found read =>
      split at decoded
      · next sized =>
          simp only [Except.ok.injEq] at decoded
          subst decoded
          exact ⟨(Base64url.decode_eq_some.mp read).1, sized⟩
      · simp at decoded
  · simp at decoded

theorem decode_encode
    {bytes : Bytes}
    (nonempty : bytes ≠ []) :
    decode (Base64url.encode bytes) bytes.length = .ok bytes := by
  simp [decode, Base64url.decode_eq_some.mpr ⟨rfl, nonempty⟩]

theorem isDigest_digest (bytes : Bytes) :
    isDigest (P.digest bytes) = true := by
  have sized := P.length_sha256 bytes
  refine isBytesOf_encode ?_ sized
  intro empty
  simp [empty] at sized

theorem sha256_eq_of_digest_eq
    {first second : Bytes}
    (same : P.digest first = P.digest second) :
    P.sha256 first = P.sha256 second :=
  Base64url.encode_injective same

/-- A group key's digest is that of its two keys' bytes. -/
theorem groupKeyDigest_eq_ok
    {key : GroupPublicKey}
    {found : String} :
    P.groupKeyDigest key = .ok found ↔
      ∃ ed25519 mlDsa,
        decode key.ed25519PublicKey 32 = .ok ed25519 ∧
          decode key.mlDsaPublicKey ML_DSA_PUBLIC_KEY_BYTES = .ok mlDsa ∧
          found = P.digest (ed25519 ++ mlDsa) := by
  simp only [groupKeyDigest, bind_eq_ok, bytesOf_eq_ok,
    Json.Plain.text.injEq, Except.ok.injEq]
  constructor
  · rintro ⟨_, ⟨rfl, _⟩, _, ⟨rfl, _⟩, ed25519, first, mlDsa, second, rfl⟩
    exact ⟨ed25519, mlDsa, first, second, rfl⟩
  · rintro ⟨ed25519, mlDsa, first, second, rfl⟩
    exact ⟨_, ⟨rfl, decode_isOk.mp ⟨_, first⟩⟩, _,
      ⟨rfl, decode_isOk.mp ⟨_, second⟩⟩, ed25519, first, mlDsa, second, rfl⟩

end Primitives

@[simp] theorem sameGroupKey_iff
    {first second : GroupPublicKey} :
    sameGroupKey first second = true ↔ first = second := by
  cases first
  cases second
  simp [sameGroupKey]

end HushOS
