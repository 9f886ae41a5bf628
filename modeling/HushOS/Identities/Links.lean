import HushOS.Primitives
import HushOS.Toolkit.Scalars

namespace HushOS

open Toolkit

/-!
# Succession links

A member's identity is succeeded by another: the old keys sign for the new
ones.  A link holds under its version 2 signature, or under its consent, which
both the old and the new keys sign.
-/

/-- A succession link's fields, as read. -/
structure SuccessionLink where
  oldKeyVersion : Int
  newKeyVersion : Int
  oldEncryptionPublicKey : String
  oldSigningPublicKey : String
  oldMlDsaPublicKey : String
  newEncryptionPublicKey : String
  newSigningPublicKey : String
  newMlDsaPublicKey : String
  newKemPublicKey : String
  signature : String
  consent : Option String
  deriving DecidableEq

namespace Identities

/-- A key version, from 1 to the largest safe integer, or refused. -/
def count (value : Int) (what : String) : Except CryptoError Int :=
  if 1 ≤ value ∧ value ≤ maxSafe then .ok value else .error (invalid what)

/-- A text that is not empty, in lower case, or refused. -/
def text (value : String) (what : String) : Except CryptoError String :=
  if value = "" then .error (invalid what) else .ok value.toLower

/-- A key's text, of as many bytes as asked for, or refused. -/
def key (value : String) (length : Nat) : Except CryptoError String :=
  (decode value length).map fun _ => value

/-- The bytes of a statement's parts. -/
def statement (parts : List Json.Scalar) : Bytes :=
  Utf8.encode (Json.stringify parts)

section Statements

variable (P : Primitives)

/-- The bytes of a succession's fields under a domain, or refused. -/
def successionFields
    (domain : String)
    (head : List Json.Scalar)
    (userId : String)
    (link : SuccessionLink) :
    Except CryptoError Bytes := do
  let oldVersion ← count link.oldKeyVersion "key version"
  refuseIf (maxSafe < link.newKeyVersion ∨ link.newKeyVersion ≤ oldVersion)
    ⟨"Invalid key version."⟩
  let user ← text userId "user id"
  let oldEncryption ← key link.oldEncryptionPublicKey 32
  let oldSigning ← key link.oldSigningPublicKey 32
  let oldMlDsa ← key link.oldMlDsaPublicKey ML_DSA_PUBLIC_KEY_BYTES
  let newEncryption ← key link.newEncryptionPublicKey 32
  let newSigning ← key link.newSigningPublicKey 32
  let newMlDsa ← key link.newMlDsaPublicKey ML_DSA_PUBLIC_KEY_BYTES
  let newKem ← decode link.newKemPublicKey KEM_PUBLIC_KEY_BYTES
  .ok (statement
    ([.text domain] ++ head ++
      [.text user, .integer oldVersion, .integer link.newKeyVersion,
        .text oldEncryption, .text oldSigning, .text oldMlDsa,
        .text newEncryption, .text newSigning, .text newMlDsa,
        .text (P.digest newKem)]))

/-- A succession's version 2 statement. -/
def successionStatement (userId : String) (link : SuccessionLink) :
    Except CryptoError Bytes :=
  successionFields P "hushos/identity/succession" [.integer 2] userId link

/-- Which identity signs a half of a consent. -/
inductive ConsentRole where
  | old
  | new
  deriving DecidableEq, Repr

/-- A role's name. -/
def ConsentRole.name : ConsentRole → String
  | .old => "old"
  | .new => "new"

/-- A succession's consent statement, in a role. -/
def successionConsentStatement
    (userId : String)
    (link : SuccessionLink)
    (role : ConsentRole) :
    Except CryptoError Bytes :=
  successionFields P "hushos/identity/succession-consent"
    [.integer 1, .text role.name] userId link

def SUCCESSION_CONSENT_BYTES : Nat := 2 * HYBRID_SIGNATURE_BYTES

/-- A person's signing keys, decoded. -/
def under (signing mlDsa : String) : Except CryptoError HybridPublicKey := do
  let signingPublicKey ← decode signing 32
  let mlDsaPublicKey ← decode mlDsa ML_DSA_PUBLIC_KEY_BYTES
  .ok { signingPublicKey, mlDsaPublicKey }

/-- What a check answers; one that refuses answers no. -/
def answered : Except CryptoError Bool → Bool
  | .ok held => held
  | .error _ => false

/-- Whether both identities of a link consent to it. -/
def verifySuccessionConsent (userId : String) (link : SuccessionLink) : Bool :=
  match link.consent with
  | none => false
  | some given => answered do
      let consent ← decode given SUCCESSION_CONSENT_BYTES
      let oldBytes ← successionConsentStatement P userId link .old
      let oldKeys ← under link.oldSigningPublicKey link.oldMlDsaPublicKey
      let newBytes ← successionConsentStatement P userId link .new
      let newKeys ← under link.newSigningPublicKey link.newMlDsaPublicKey
      .ok (P.verifyHybrid oldBytes (consent.take HYBRID_SIGNATURE_BYTES)
          oldKeys &&
        P.verifyHybrid newBytes (consent.drop HYBRID_SIGNATURE_BYTES) newKeys)

/-- Whether a link's version 2 signature holds under the keys it replaces. -/
def verifySuccessionLink (userId : String) (link : SuccessionLink) : Bool :=
  answered do
    let bytes ← successionStatement P userId link
    let signature ← decode link.signature HYBRID_SIGNATURE_BYTES
    let keys ← under link.oldSigningPublicKey link.oldMlDsaPublicKey
    .ok (P.verifyHybrid bytes signature keys)

/-- Whether a link holds under the proof asked of it. -/
def verifies (userId : String) (consent : Bool) (link : SuccessionLink) :
    Bool :=
  if consent then
    verifySuccessionConsent P userId link
  else
    verifySuccessionLink P userId link

end Statements

end Identities

end HushOS
