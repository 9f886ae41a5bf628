import HushOS.Acceptance.Toy
import HushOS.Identities.Paths

namespace HushOS

open Toolkit List

/-!
# Toy links

Over primitives in which every signature holds and listed messages are hashed
apart, links between toy identities hold as soon as their versions rise.
-/

namespace Identities

/-- What toy primitives hash a message to: its place, if it is listed. -/
def listedHash (listed : List Bytes) (message : Bytes) : Nat :=
  if message ∈ listed then
    listed.idxOf message
  else
    listed.length + (message.headD 0).toNat

/-- Primitives in which every signature holds, listed messages hashed apart. -/
def listing (listed : List Bytes) : Primitives :=
  toyWith (listedHash listed)

variable {listed : List Bytes}

theorem listing_apart
    (few : listed.length ≤ 256) :
    Set.InjOn (listing listed).sha256 { message | message ∈ listed } := by
  intro first member second memberToo same
  have hashes : UInt8.ofNat (listedHash listed first) =
      UInt8.ofNat (listedHash listed second) :=
    (replicate_right_inj (show 32 ≠ 0 by decide)).mp same
  have inList : first ∈ listed := member
  have inListToo : second ∈ listed := memberToo
  have inside := idxOf_lt_length_of_mem inList
  have insideToo := idxOf_lt_length_of_mem inListToo
  rw [listedHash, listedHash, if_pos inList, if_pos inListToo] at hashes
  have numbers := congrArg UInt8.toNat hashes
  rw [UInt8.toNat_ofNat_of_lt' (lt_of_lt_of_le inside few),
    UInt8.toNat_ofNat_of_lt' (lt_of_lt_of_le insideToo few)] at numbers
  exact (idxOf_inj inList).mp numbers

def toyKeys (number : Nat) : KeySet where
  encryptionPublicKey := bytesText 32 number
  signingPublicKey := bytesText 32 number
  mlDsaPublicKey := bytesText ML_DSA_PUBLIC_KEY_BYTES number
  kemPublicKey := bytesText KEM_PUBLIC_KEY_BYTES number

def toyPinned (listed : List Bytes) (number : Nat) : PinnedKeys where
  keyVersion := some 1
  encryptionPublicKey := bytesText 32 number
  signingPublicKey := bytesText 32 number
  mlDsaPublicKeyHash := (listing listed).keyDigest
    (List.replicate ML_DSA_PUBLIC_KEY_BYTES (UInt8.ofNat number))

def toyLink (from_ to_ : Nat) (oldKeyVersion newKeyVersion : Int) :
    SuccessionLink where
  oldKeyVersion := oldKeyVersion
  newKeyVersion := newKeyVersion
  oldEncryptionPublicKey := (toyKeys from_).encryptionPublicKey
  oldSigningPublicKey := (toyKeys from_).signingPublicKey
  oldMlDsaPublicKey := (toyKeys from_).mlDsaPublicKey
  newEncryptionPublicKey := (toyKeys to_).encryptionPublicKey
  newSigningPublicKey := (toyKeys to_).signingPublicKey
  newMlDsaPublicKey := (toyKeys to_).mlDsaPublicKey
  newKemPublicKey := (toyKeys to_).kemPublicKey
  signature := bytesText HYBRID_SIGNATURE_BYTES 0
  consent := none

/-- A link as it is served. -/
def servedLink (link : SuccessionLink) : Option ServedLink :=
  some
    { oldKeyVersion := .integer link.oldKeyVersion
      newKeyVersion := .integer link.newKeyVersion
      oldEncryptionPublicKey := .text link.oldEncryptionPublicKey
      oldSigningPublicKey := .text link.oldSigningPublicKey
      oldMlDsaPublicKey := .text link.oldMlDsaPublicKey
      newEncryptionPublicKey := .text link.newEncryptionPublicKey
      newSigningPublicKey := .text link.newSigningPublicKey
      newMlDsaPublicKey := .text link.newMlDsaPublicKey
      newKemPublicKey := .text link.newKemPublicKey
      signature := .text link.signature
      consent := match link.consent with
        | some consent => .text consent
        | none => .nothing }

@[simp] theorem snapshot_servedLink (link : SuccessionLink) :
    snapshot (servedLink link) = some link := by
  obtain ⟨_, _, _, _, _, _, _, _, _, _, consent⟩ := link
  cases consent <;> rfl

theorem bytesText_inj
    {length first second : Nat}
    (positive : 0 < length)
    (low : first < 256)
    (lowToo : second < 256) :
    bytesText length first = bytesText length second ↔ first = second := by
  constructor
  · intro same
    have bytes := congrArg List.head? (Base64url.encode_injective same)
    rw [head?_replicate, head?_replicate, if_neg (by omega),
      if_neg (by omega), Option.some.injEq] at bytes
    have numbers := congrArg UInt8.toNat bytes
    rwa [UInt8.toNat_ofNat_of_lt' low, UInt8.toNat_ofNat_of_lt' lowToo]
      at numbers
  · rintro rfl
    rfl

theorem mlDsaHash_toy (listed : List Bytes) (number : Nat) :
    mlDsaHash (listing listed) (bytesText ML_DSA_PUBLIC_KEY_BYTES number) =
      some (toyPinned listed number).mlDsaPublicKeyHash := by
  rw [mlDsaHash, decode_bytesText (by decide)]
  rfl

@[simp] theorem keysOf_toyLink
    (from_ to_ : Nat)
    (oldVersion newVersion : Int) :
    keysOf (toyLink from_ to_ oldVersion newVersion) = toyKeys to_ := rfl

variable {from_ to_ : Nat} {oldVersion newVersion : Int}

/-- A toy link that raises the key version verifies. -/
theorem verifies_toyLink
    {userId : String}
    (named : userId ≠ "")
    (positive : 1 ≤ oldVersion)
    (rises : oldVersion < newVersion)
    (safe : newVersion ≤ maxSafe) :
    verifies (listing listed) userId false
      (toyLink from_ to_ oldVersion newVersion) = true := by
  have key32 : ∀ number, key (bytesText 32 number) 32 =
      .ok (bytesText 32 number) := fun number => by
    rw [key, decode_bytesText (by decide)]
    rfl
  have keyMlDsa : ∀ number,
      key (bytesText ML_DSA_PUBLIC_KEY_BYTES number) ML_DSA_PUBLIC_KEY_BYTES =
        .ok (bytesText ML_DSA_PUBLIC_KEY_BYTES number) := fun number => by
    rw [key, decode_bytesText (by decide)]
    rfl
  have stated : ∃ bytes, successionStatement (listing listed) userId
      (toyLink from_ to_ oldVersion newVersion) = .ok bytes :=
    ⟨_, bind_eq_ok.mpr ⟨oldVersion, if_pos (by
        change 1 ≤ oldVersion ∧ oldVersion ≤ maxSafe
        omega),
      bind_eq_ok.mpr ⟨(), refuseIf_eq_ok.mpr (by
          change ¬ ((maxSafe : Int) < newVersion ∨ newVersion ≤ oldVersion)
          omega),
      bind_eq_ok.mpr ⟨_, if_neg named,
      bind_eq_ok.mpr ⟨_, key32 _, bind_eq_ok.mpr ⟨_, key32 _,
      bind_eq_ok.mpr ⟨_, keyMlDsa _, bind_eq_ok.mpr ⟨_, key32 _,
      bind_eq_ok.mpr ⟨_, key32 _, bind_eq_ok.mpr ⟨_, keyMlDsa _,
      bind_eq_ok.mpr ⟨_, decode_bytesText (by decide), rfl⟩⟩⟩⟩⟩⟩⟩⟩⟩⟩⟩
  obtain ⟨bytes, isStated⟩ := stated
  have keys : under (bytesText 32 from_)
      (bytesText ML_DSA_PUBLIC_KEY_BYTES from_) =
      .ok { signingPublicKey := List.replicate 32 (UInt8.ofNat from_)
            mlDsaPublicKey :=
              List.replicate ML_DSA_PUBLIC_KEY_BYTES (UInt8.ofNat from_) } := by
    rw [under, decode_bytesText (by decide), decode_bytesText (by decide)]
    rfl
  have checked : ((do
      let bytes ← successionStatement (listing listed) userId
        (toyLink from_ to_ oldVersion newVersion)
      let signature ← decode (bytesText HYBRID_SIGNATURE_BYTES 0)
        HYBRID_SIGNATURE_BYTES
      let keys ← under (bytesText 32 from_)
        (bytesText ML_DSA_PUBLIC_KEY_BYTES from_)
      .ok ((listing listed).verifyHybrid bytes signature keys)) :
      Except CryptoError Bool) = .ok true := by
    rw [isStated, decode_bytesText (by decide), keys]
    simp only [ok_bind, Primitives.verifyHybrid, Primitives.verifyStatement,
      Primitives.mlDsaVerify, length_replicate, take_replicate,
      drop_replicate]
    rfl
  rw [verifies, if_neg Bool.false_ne_true, verifySuccessionLink]
  exact congrArg answered checked

theorem leavesSet_toyLink
    {other : Nat}
    (low : from_ < 256)
    (lowToo : other < 256) :
    leavesSet (listing listed) (toyLink from_ to_ oldVersion newVersion)
      (toyPinned listed other) = decide (from_ = other) := by
  by_cases same : from_ = other
  · subst same
    simp [leavesSet, toyLink, toyKeys, mlDsaHash_toy, toyPinned]
  · have differs := (@bytesText_inj 32 _ _ (by decide) low lowToo).not.mpr
      same
    simp [leavesSet, toyLink, toyKeys, toyPinned, differs, same]

theorem leavesLink_toyLink
    {other last : Nat}
    {otherVersion lastVersion : Int}
    (low : from_ < 256)
    (lowToo : last < 256) :
    leavesLink (toyLink from_ to_ oldVersion newVersion)
      (toyLink other last otherVersion lastVersion) =
        decide (from_ = last) := by
  by_cases same : from_ = last
  · subst same
    simp [leavesLink, toyLink]
  · have differs := (@bytesText_inj 32 _ _ (by decide) low lowToo).not.mpr
      same
    simp [leavesLink, toyLink, toyKeys, differs, same]

theorem toyKeys_inj
    {first second : Nat}
    (low : first < 256)
    (lowToo : second < 256) :
    toyKeys first = toyKeys second ↔ first = second := by
  constructor
  · intro same
    exact (bytesText_inj (by decide) low lowToo).mp
      (congrArg KeySet.encryptionPublicKey same)
  · rintro rfl
    rfl

def sampleLinks : List SuccessionLink :=
  [toyLink 1 2 1 2, toyLink 2 3 3 5, toyLink 1 2 1 4]

def sampleHashes : List Bytes :=
  sampleLinks.flatMap fun link =>
    [verifiedOver "member" true link, verifiedOver "member" false link]

def sampleAsked : Asked where
  userId := "member"
  start := toyPinned sampleHashes 1
  served := toyKeys 3
  links := sampleLinks.map servedLink
  consentUntil := none
  memberKeys := []

theorem readable_sampleAsked : sampleAsked.readable = sampleLinks := by
  simp [Asked.readable, sampleAsked, sampleLinks]

theorem sampleAsked_apart :
    Set.InjOn (listing sampleHashes).sha256
      { message | message ∈ sampleHashes } :=
  listing_apart (by decide)

end Identities

end HushOS
