import HushOS.Contacts.Pins
import HushOS.Toolkit.Retired
import HushOS.Acceptance.Toy

namespace HushOS

open Toolkit List

/-!
# What a device remembers of a contact

The guard entry of a contact holds the keys a device last acted on, the
signing keys it saw replaced, and whether it saw these keys verified.  It is
made anew for each pin the device acts on.
-/

/-- What one device keeps of a contact, apart from the settings. -/
structure GuardEntry where
  revision : Nat
  keyVersion : Option Int
  encryptionPublicKey : String
  signingPublicKey : String
  mlDsaPublicKeyHash : String
  kemPublicKeyHash : String
  previousSigningKeys : List String
  verified : Bool
  deriving DecidableEq, Repr

namespace GuardEntry

/-- The key fields of an entry, as a pin has them. -/
def keys (entry : GuardEntry) : KeyFields where
  keyVersion := entry.keyVersion
  encryptionPublicKey := entry.encryptionPublicKey
  signingPublicKey := entry.signingPublicKey
  mlDsaPublicKeyHash := some entry.mlDsaPublicKeyHash
  kemPublicKeyHash := some entry.kemPublicKeyHash

end GuardEntry

/-- The revision of an entry, none yet where there is no entry. -/
def revisionOf (previous : Option GuardEntry) : Nat :=
  (previous.map GuardEntry.revision).getD 0

/-- The signing keys seen replaced once a pin with a signing key is acted on. -/
def replacedBy (signingPublicKey : String) : Option GuardEntry → List String
  | none => Retired.leaveOut signingPublicKey []
  | some previous =>
    Retired.leaveOut signingPublicKey
      (Retired.keepOnce signingPublicKey previous.previousSigningKeys
        previous.signingPublicKey)

namespace Primitives

variable (P : Primitives)

/-- Whether an entry is of the very keys committed to, and saw them verified. -/
def sawVerified (commitment : Option String) : Option GuardEntry → Bool
  | none => false
  | some previous =>
    P.keyCommitment previous.keys = commitment && previous.verified

/-- The guard entry after a device acted on a pin, or refused. -/
def nextGuardEntry (previous : Option GuardEntry) (pin : PinKeys) :
    Except CryptoError GuardEntry :=
  if (P.pinTrust pin).held then
    .ok
      { revision := revisionOf previous + 1
        keyVersion := pin.keyVersion
        encryptionPublicKey := pin.encryptionPublicKey
        signingPublicKey := pin.signingPublicKey
        mlDsaPublicKeyHash := pin.mlDsaPublicKeyHash.getD ""
        kemPublicKeyHash := pin.kemPublicKeyHash.getD ""
        previousSigningKeys := replacedBy pin.signingPublicKey previous
        verified :=
          P.pinTrust pin = .verified ||
            P.sawVerified (P.keyCommitment pin.toKeyFields) previous }
  else
    .error ⟨"Only a verified or first-seen pin is remembered."⟩

/-- The guard entry after a device acted on one pin after another. -/
def remembered (pins : List PinKeys) : Except CryptoError (Option GuardEntry) :=
  foldEach (fun previous pin => (P.nextGuardEntry previous pin).map some)
    none pins

end Primitives

namespace Primitives

variable {P : Primitives}

theorem hashes_of_commitment
    {pin : KeyFields}
    {commitment : String}
    (committed : P.keyCommitment pin = some commitment) :
    pin.mlDsaPublicKeyHash = some (pin.mlDsaPublicKeyHash.getD "") ∧
      pin.kemPublicKeyHash = some (pin.kemPublicKeyHash.getD "") := by
  have made := keyCommitment_eq_some.mp committed
  unfold fingerprintOf at made
  cases mlDsa : pin.mlDsaPublicKeyHash with
  | none =>
    simp [mlDsa, given] at made
  | some mlDsaHash =>
    cases kem : pin.kemPublicKeyHash with
    | none =>
      simp [kem, given] at made
    | some kemHash =>
      exact ⟨rfl, rfl⟩

/-- What an accepted pin leaves of an entry. -/
structure Remembers
    (P : Primitives)
    (previous : Option GuardEntry)
    (pin : PinKeys)
    (entry : GuardEntry) :
    Prop where
  revision : entry.revision = revisionOf previous + 1
  signingPublicKey : entry.signingPublicKey = pin.signingPublicKey
  commitment : P.keyCommitment entry.keys = P.keyCommitment pin.toKeyFields
  replaced : entry.previousSigningKeys =
    replacedBy pin.signingPublicKey previous
  verified : entry.verified = true →
    P.pinTrust pin = .verified ∨
      P.sawVerified (P.keyCommitment pin.toKeyFields) previous = true

theorem remembers
    {previous : Option GuardEntry}
    {pin : PinKeys}
    {entry : GuardEntry}
    (accepted : P.nextGuardEntry previous pin = .ok entry) :
    Remembers P previous pin entry := by
  unfold nextGuardEntry at accepted
  split at accepted
  · next held =>
      obtain ⟨commitment, committed⟩ := commitment_of_held held
      obtain ⟨mlDsa, kem⟩ := hashes_of_commitment committed
      simp only [Except.ok.injEq] at accepted
      subst accepted
      refine ⟨rfl, rfl, ?_, rfl, fun verified => ?_⟩
      · exact keyCommitment_eq rfl rfl mlDsa.symm kem.symm
      · simpa using verified
  · simp at accepted

end Primitives

/-- What an entry says of the pins a device acted on, the last one last. -/
structure Primitives.RemembersRun
    (P : Primitives)
    (earlier : List PinKeys)
    (pin : PinKeys)
    (entry : GuardEntry) :
    Prop where
  /-- The entry's revision counts the pins. -/
  revision : entry.revision = earlier.length + 1
  /-- The keys are the last pin's. -/
  signingPublicKey : entry.signingPublicKey = pin.signingPublicKey
  commitment : P.keyCommitment entry.keys = P.keyCommitment pin.toKeyFields
  /-- The signing keys of earlier pins are kept, once each, but the current. -/
  once : entry.previousSigningKeys.Nodup
  replaced : ∀ key, key ∈ entry.previousSigningKeys ↔
    (∃ before ∈ earlier, before.signingPublicKey = key) ∧
      key ≠ pin.signingPublicKey
  /-- Keys are verified only through a verified pin of these very keys. -/
  verified : entry.verified = true →
    ∃ checked ∈ earlier ++ [pin], P.pinTrust checked = .verified ∧
      P.keyCommitment checked.toKeyFields = P.keyCommitment pin.toKeyFields

namespace Primitives

variable {P : Primitives}

variable {pin : PinKeys} {earlier : List PinKeys}

theorem remembersRun_first
    {entry : GuardEntry}
    (next : Remembers P none pin entry) :
    P.RemembersRun [] pin entry where
  revision := next.revision
  signingPublicKey := next.signingPublicKey
  commitment := next.commitment
  once := by
    rw [next.replaced]
    exact nodup_nil
  replaced := by
    intro key
    rw [next.replaced]
    simp [replacedBy]
  verified := by
    intro verified
    rcases next.verified verified with trusted | saw
    · exact ⟨pin, by simp, trusted, rfl⟩
    · simp [sawVerified] at saw

/-- One more accepted pin extends the remembered run. -/
theorem remembersRun_next
    {before pin : PinKeys}
    {previous entry : GuardEntry}
    (held : P.RemembersRun earlier before previous)
    (next : Remembers P (some previous) pin entry) :
    P.RemembersRun (earlier ++ [before]) pin entry where
  revision := by
    rw [next.revision, revisionOf]
    simp [held.revision]
  signingPublicKey := next.signingPublicKey
  commitment := next.commitment
  once := by
    rw [next.replaced]
    exact Retired.nodup_leaveOut (Retired.nodup_keepOnce held.once)
  replaced := by
    intro key
    rw [next.replaced, replacedBy, Retired.mem_leaveOut, Retired.mem_keepOnce,
      held.replaced, held.signingPublicKey]
    constructor
    · rintro ⟨⟨⟨earlierPin, member, isKey⟩, _⟩ | ⟨isKey, _⟩, retired⟩
      · exact ⟨⟨earlierPin, mem_append_left _ member, isKey⟩, retired⟩
      · exact ⟨⟨before, by simp, isKey.symm⟩, retired⟩
    · rintro ⟨⟨earlierPin, member, isKey⟩, retired⟩
      refine ⟨?_, retired⟩
      by_cases current : key = before.signingPublicKey
      · exact .inr ⟨current, retired⟩
      · rcases mem_append.mp member with inside | last
        · exact .inl ⟨⟨earlierPin, inside, isKey⟩, current⟩
        · rw [mem_singleton.mp last] at isKey
          exact absurd isKey.symm current
  verified := by
    intro verified
    rcases next.verified verified with trusted | saw
    · exact ⟨pin, by simp, trusted, rfl⟩
    · simp only [sawVerified, Bool.and_eq_true, decide_eq_true_eq] at saw
      obtain ⟨same, sawBefore⟩ := saw
      obtain ⟨checked, member, trusted, commitment⟩ := held.verified sawBefore
      refine ⟨checked, mem_append_left _ member, trusted, ?_⟩
      rw [commitment, ← held.commitment, same]

/-- Remembering one more pin goes on from the guard before it. -/
theorem remembered_append
    {guard : Option GuardEntry} :
    P.remembered (earlier ++ [pin]) = .ok guard ↔
      ∃ previous, P.remembered earlier = .ok previous ∧
        ∃ entry, P.nextGuardEntry previous pin = .ok entry ∧
          guard = some entry := by
  rw [remembered, foldEach_append, bind_eq_ok]
  refine exists_congr fun previous => and_congr_right fun _ => ?_
  simp only [foldEach, bind_eq_ok, Except.ok.injEq]
  constructor
  · rintro ⟨middle, stepped, rfl⟩
    cases accepted : P.nextGuardEntry previous pin with
    | error reason =>
      simp [accepted, Except.map] at stepped
    | ok entry =>
      refine ⟨entry, rfl, ?_⟩
      simpa [accepted, Except.map] using stepped.symm
  · rintro ⟨entry, accepted, rfl⟩
    exact ⟨some entry, by rw [accepted]; rfl, rfl⟩

/--
A device that acted on a run of pins remembers the last one's keys, and of the
earlier ones their signing keys.
-/
theorem remembersRun_remembered
    {guard : Option GuardEntry}
    (accepted : P.remembered (earlier ++ [pin]) = .ok guard) :
    ∃ entry, guard = some entry ∧ P.RemembersRun earlier pin entry := by
  induction earlier using List.reverseRecOn generalizing pin guard with
  | nil =>
    obtain ⟨previous, none_, entry, made, rfl⟩ :=
      remembered_append.mp accepted
    cases none_
    exact ⟨entry, rfl, remembersRun_first (remembers made)⟩
  | append_singleton before last inductionHypothesis =>
    obtain ⟨previous, acceptedBefore, entry, made, rfl⟩ :=
      remembered_append.mp accepted
    obtain ⟨held, rfl, remembersRun⟩ := inductionHypothesis acceptedBefore
    exact ⟨entry, rfl, remembersRun_next remembersRun (remembers made)⟩

end Primitives

/--
Whatever pins a device acts on for one person, each is remembered at the next
revision, with its own commitment, the signing keys of all pins before it, and
as verified only if these keys were.
-/
theorem Primitives.remembered_history
    (P : Primitives)
    (earlier : List PinKeys)
    (pin : PinKeys)
    (guard : Option GuardEntry)
    (accepted : P.remembered (earlier ++ [pin]) = .ok guard) :
    ∃ previous entry,
      P.remembered earlier = .ok previous ∧ guard = some entry ∧
        entry.revision = revisionOf previous + 1 ∧
        P.RemembersRun earlier pin entry := by
  obtain ⟨previous, before, entry, made, rfl⟩ :=
    Primitives.remembered_append.mp accepted
  obtain ⟨found, same, remembersRun⟩ := Primitives.remembersRun_remembered accepted
  cases same
  exact ⟨previous, entry, before, rfl,
    (Primitives.remembers made).revision, remembersRun⟩

/-- Toy primitives that tell fingerprints apart by their first key. -/
def byFirstKey : Primitives :=
  toyWith fun message => (message.getD 30 0).toNat

def toyFields (keyVersion : Option Int) (number : Nat) : KeyFields where
  keyVersion := keyVersion
  encryptionPublicKey := bytesText 32 number
  signingPublicKey := bytesText 32 number
  mlDsaPublicKeyHash :=
    some (hexOf (List.replicate 32 (UInt8.ofNat number)))
  kemPublicKeyHash := some (hexOf (List.replicate 32 (UInt8.ofNat number)))

def toySeen (number : Nat) : PinKeys where
  toKeyFields := toyFields none number
  fingerprint := ""

theorem given_hexOf
    {bytes : Bytes}
    (nonempty : bytes ≠ []) :
    given (some (hexOf bytes)) = some (hexOf bytes) := by
  have long := length_hexOf bytes
  unfold given
  split
  · next empty =>
      rw [Option.some.inj empty] at long
      exact absurd (by simpa using long) nonempty
  · rfl

theorem firstKey_byte
    {first rest : Bytes}
    (start : UInt8)
    (named : first.length = 30) :
    (first ++ List.replicate 32 start ++ rest).getD 30 0 = start := by
  rw [append_assoc, getD_append_right _ _ _ _ (by omega), named,
    getD_append _ _ _ _ (by simp)]
  rfl

/-- The commitment of toy fields reads back their number. -/
theorem keyCommitment_toyFields
    (keyVersion : Option Int)
    (number : Nat) :
    byFirstKey.keyCommitment (toyFields keyVersion number) =
      some (spaced (hexOf (List.replicate 20 (UInt8.ofNat number)))) := by
  have key : canonicalKey (bytesText 32 number) =
      .ok (List.replicate 32 (UInt8.ofNat number)) :=
    canonicalKey_encode length_replicate
  have hash : hexBytes (hexOf (List.replicate 32 (UInt8.ofNat number))) =
      .ok (List.replicate 32 (UInt8.ofNat number)) :=
    hexBytes_hexOf length_replicate
  have present : given
      (some (hexOf (List.replicate 32 (UInt8.ofNat number)))) =
        some (hexOf (List.replicate 32 (UInt8.ofNat number))) :=
    given_hexOf (by simp)
  have named :
      (Utf8.encode "hushos/identity/fingerprint/v3".toList).length = 30 := by
    decide
  have sized (start : UInt8) :
      ¬ ((List.replicate 32 start).length ≠ 32 ∨
        (List.replicate 32 start).length ≠ 32 ∨
        (List.replicate 32 start).length ≠ 32 ∨
        (List.replicate 32 start).length ≠ 32) := by
    simp only [length_replicate, ne_eq, not_true_eq_false, or_self,
      not_false_eq_true]
  rw [Primitives.keyCommitment_eq_some, Primitives.fingerprintOf]
  simp only [toyFields, present, key, hash, bind, Except.bind]
  rw [Primitives.fingerprint, if_neg (sized _)]
  simp only [byFirstKey, toyWith, append_assoc]
  rw [← append_assoc, firstKey_byte _ named, UInt8.ofNat_toNat,
    take_replicate]
  rfl

theorem pinTrust_toySeen (number : Nat) :
    byFirstKey.pinTrust (toySeen number) = .seen :=
  Primitives.pinTrust_eq_seen.mpr
    ⟨rfl, _, keyCommitment_toyFields none number⟩

theorem nextGuardEntry_toySeen
    (previous : Option GuardEntry)
    (number : Nat) :
    ∃ entry, byFirstKey.nextGuardEntry previous (toySeen number) =
      .ok entry := by
  have held : (byFirstKey.pinTrust (toySeen number)).held = true := by
    rw [pinTrust_toySeen]
    rfl
  rw [Primitives.nextGuardEntry, if_pos held]
  exact ⟨_, rfl⟩

theorem remembered_toySeen (numbers : List Nat) :
    ∃ guard, byFirstKey.remembered (numbers.map toySeen) = .ok guard := by
  induction numbers using List.reverseRecOn with
  | nil =>
    exact ⟨none, rfl⟩
  | append_singleton earlier last inductionHypothesis =>
    obtain ⟨previous, accepted⟩ := inductionHypothesis
    obtain ⟨entry, made⟩ := nextGuardEntry_toySeen previous last
    refine ⟨some entry, ?_⟩
    rw [map_append]
    exact Primitives.remembered_append.mpr
      ⟨previous, accepted, entry, made, rfl⟩

/--
First-seen keys that are replaced and come back are remembered at the third
revision, unverified, with the keys between them as replaced.
-/
theorem remembered_history_returned :
    ∃ entry,
      byFirstKey.remembered [toySeen 1, toySeen 2, toySeen 1] =
        .ok (some entry) ∧
      entry.revision = 3 ∧ entry.verified = false ∧
      ∀ key, key ∈ entry.previousSigningKeys ↔ key = bytesText 32 2 := by
  obtain ⟨guard, accepted⟩ := remembered_toySeen [1, 2, 1]
  obtain ⟨previous, entry, _, rfl, _, remembersRun⟩ :=
    Primitives.remembered_history byFirstKey [toySeen 1, toySeen 2]
      (toySeen 1) guard accepted
  refine ⟨entry, accepted, remembersRun.revision, ?_, ?_⟩
  · refine Bool.eq_false_iff.mpr fun verified => ?_
    obtain ⟨checked, member, trusted, _⟩ := remembersRun.verified verified
    have among : checked ∈ [1, 2, 1].map toySeen := member
    obtain ⟨number, _, rfl⟩ := mem_map.mp among
    rw [pinTrust_toySeen] at trusted
    exact PinTrust.noConfusion trusted
  · intro key
    have apart : bytesText 32 2 ≠ bytesText 32 1 := by
      decide
    rw [remembersRun.replaced]
    constructor
    · rintro ⟨⟨before, member, rfl⟩, retired⟩
      have among : before = toySeen 1 ∨ before = toySeen 2 := by
        simpa using member
      rcases among with rfl | rfl
      · exact absurd rfl retired
      · rfl
    · rintro rfl
      exact ⟨⟨toySeen 2, by simp, rfl⟩, apart⟩

end HushOS
