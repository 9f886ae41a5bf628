import HushOS.Contacts.Guards
import HushOS.Identities.ToyLinks

namespace HushOS

open Toolkit List

/-!
# Following a contact's new keys

A served identity with other keys at a higher version may be explained by a
chain of signed links from the pin's keys.  A pin that follows one is a pin of
the served keys, of the kind it was, and keeps the signing keys it left.
-/

/-- A contact pin, with what following a succession writes beside its keys. -/
structure ContactPin extends PinKeys where
  previousSigningKeys : Option (List String)
  keysReplacedAt : Option String
  resealShares : Option Bool
  deriving DecidableEq, Repr

namespace ContactPin

/-- The signing keys a pin held before, none where it lists none. -/
def previous (pin : ContactPin) : List String :=
  pin.previousSigningKeys.getD []

/-- The key version a pin was made at, the first where it names none. -/
def version (pin : ContactPin) : Int :=
  pin.keyVersion.getD 1

end ContactPin

/-- What a pin says about the keys a server serves now. -/
inductive PinComparison where
  | same
  | recheck
  | succession
  | changed
  deriving DecidableEq, Repr

/-- What following a succession throws. -/
inductive FollowError where
  | crypto (error : CryptoError)
  | error (message : String)
  deriving DecidableEq, Repr

/-- A refusal of the cryptography underneath, thrown on. -/
def throwsOn {α : Type} : Except CryptoError α → Except FollowError α
  | .ok value => .ok value
  | .error reason => .error (.crypto reason)

namespace Primitives

variable (P : Primitives)

/-- Whether served lattice keys are those a pin holds digests of. -/
def matchesServed (pin : PinKeys) (served : ServedIdentity) : Bool :=
  match given served.mlDsaPublicKey, given served.kemPublicKey with
  | some mlDsa, some kem =>
    P.servedKeyDigest mlDsa = pin.mlDsaPublicKeyHash &&
      P.servedKeyDigest kem = pin.kemPublicKeyHash
  | _, _ => false

/-- What a pin says about the keys served for its person now. -/
def comparePin (pin : PinKeys) (served : ServedIdentity) : PinComparison :=
  if pin.encryptionPublicKey = served.encryptionPublicKey ∧
      pin.signingPublicKey = served.signingPublicKey then
    if (P.pinTrust pin).held then
      if P.matchesServed pin served then .same else .changed
    else
      .recheck
  else if given served.mlDsaPublicKey = none ∨
      given served.kemPublicKey = none then
    .changed
  else if pin.keyVersion.getD 1 < served.keyVersion ∧
      (P.pinTrust pin).held = true then
    .succession
  else
    .changed

/-- Whether a link leaves a pin's keys: its old ones, the ML-DSA by digest. -/
def leavesPin (pin : PinKeys) (link : SuccessionLink) : Bool :=
  link.oldEncryptionPublicKey = pin.encryptionPublicKey &&
    link.oldSigningPublicKey = pin.signingPublicKey &&
    P.servedKeyDigest link.oldMlDsaPublicKey = pin.mlDsaPublicKeyHash

/-- The signing keys links passed through, from the first that leaves a pin. -/
def keysPassedThrough (pin : PinKeys) : List SuccessionLink → List String
  | [] => []
  | link :: rest =>
    if P.leavesPin pin link then
      (link :: rest).map SuccessionLink.oldSigningPublicKey
    else
      keysPassedThrough pin rest

/-- The signing keys kept once served keys replace a pin's. -/
def keysKept
    (pin : ContactPin)
    (signingPublicKey : String)
    (passed : List String) :
    List String :=
  Retired.keepEach signingPublicKey
    (Retired.leaveOut signingPublicKey pin.previous)
    (pin.signingPublicKey :: passed)

/-- The pin after a succession from it to served keys, or refused. -/
def pinAfterSuccession
    (pin : ContactPin)
    (served : ServedIdentity)
    (now : String)
    (passed : List String) :
    Except FollowError ContactPin := do
  let trust := P.pinTrust pin.toPinKeys
  if trust.held then
    let keys ← throwsOn (P.pinKeysOfServed served
      (if trust = .verified then .verified else .seen))
    .ok
      { toPinKeys := keys
        previousSigningKeys :=
          some (keysKept pin served.signingPublicKey passed)
        keysReplacedAt := some now
        resealShares := some true }
  else
    .error (.error "Only a verified or first-seen pin follows a succession.")

end Primitives

namespace Primitives

variable {P : Primitives}

/-- What a pin of served keys holds of them. -/
structure PinOfServed
    (P : Primitives)
    (served : ServedIdentity)
    (form : PinForm)
    (pin : PinKeys) :
    Prop where
  keyVersion : pin.keyVersion = some served.keyVersion
  encryptionPublicKey : pin.encryptionPublicKey = served.encryptionPublicKey
  signingPublicKey : pin.signingPublicKey = served.signingPublicKey
  lattice : P.matchesServed pin served = true
  commitment : ∃ commitment,
    P.keyCommitment pin.toKeyFields = some commitment ∧
      pin.fingerprint = if form = .verified then commitment else ""

/-- A served key's digest is the digest of its bytes. -/
theorem digest_of_canonicalBytes
    {value : Option String}
    {length : Nat}
    {bytes : Bytes}
    (positive : 0 < length)
    (read : canonicalBytes (value.getD "") (some length) = .ok bytes) :
    ∃ text, given value = some text ∧
      P.servedKeyDigest text = some (P.keyDigest bytes) := by
  have nonempty : value.getD "" ≠ "" := by
    intro empty
    rw [empty] at read
    have unsized : ¬ (0 : Nat) = length := positive.ne
    simp [canonicalBytes, unsized] at read
  cases value with
  | none =>
    exact absurd rfl nonempty
  | some text =>
    have found : text ≠ "" := nonempty
    refine ⟨text, ?_, ?_⟩
    · unfold given
      split
      · next empty =>
          exact absurd (Option.some.inj empty) found
      · rfl
    · unfold canonicalBytes at read
      rw [servedKeyDigest, canonicalBytes]
      rw [Option.getD_some, if_neg found] at read
      rw [if_neg found]
      cases decoded : Base64url.decode text with
      | none =>
        simp [decoded] at read
      | some others =>
        have same : others = bytes := by
          by_cases sized : others.length = length
          · simpa [decoded, sized] using read
          · simp [decoded, sized] at read
        simp [same, Except.toOption]

variable {form : PinForm} {pin : PinKeys} {served : ServedIdentity}

/-- A pin made of a served row holds that row's keys. -/
theorem pinOfServed
    (made : P.pinKeysOfServed served form = .ok pin) :
    PinOfServed P served form pin := by
  simp only [pinKeysOfServed, bind_eq_ok, withReason_eq_ok, keysOfServed]
    at made
  obtain ⟨keys, ⟨mlDsa, readMlDsa, kem, readKem, version, checked, isKeys⟩,
    made⟩ := made
  obtain ⟨mlDsaText, mlDsaGiven, mlDsaDigest⟩ :=
    @digest_of_canonicalBytes P _ _ _ (by decide) readMlDsa
  obtain ⟨kemText, kemGiven, kemDigest⟩ :=
    @digest_of_canonicalBytes P _ _ _ (by decide) readKem
  have sameVersion : version = served.keyVersion := by
    unfold servedVersion at checked
    split at checked
    · exact (Except.ok.inj checked).symm
    · simp at checked
  cases committed : P.keyCommitment keys with
  | none =>
    simp [committed] at made
  | some commitment =>
    simp only [committed, Except.ok.injEq] at made isKeys
    subst made isKeys sameVersion
    refine ⟨rfl, rfl, rfl, ?_, commitment, committed, rfl⟩
    simp [matchesServed, mlDsaGiven, kemGiven, mlDsaDigest, kemDigest]

theorem PinOfServed.trust
    (holds : PinOfServed P served form pin) :
    P.pinTrust pin = if form = .verified then .verified else .seen := by
  obtain ⟨commitment, committed, print⟩ := holds.commitment
  cases form with
  | verified =>
    refine pinTrust_eq_verified.mpr ?_
    rw [committed, print]
    rfl
  | seen =>
    exact pinTrust_eq_seen.mpr ⟨print, commitment, committed⟩

theorem comparePin_pinOfServed
    (holds : PinOfServed P served form pin) :
    P.comparePin pin served = .same := by
  have held : (P.pinTrust pin).held = true := by
    rw [holds.trust]
    cases form <;> rfl
  rw [comparePin, if_pos ⟨holds.encryptionPublicKey, holds.signingPublicKey⟩,
    if_pos held, if_pos holds.lattice]

end Primitives

/-- A change of keys as a client follows it, with the links it was served. -/
structure KeyChange where
  served : ServedIdentity
  decoys : List SuccessionLink
  chain : List SuccessionLink
  now : String
  deriving DecidableEq

namespace KeyChange

/-- The links served, the chain after the decoys. -/
def links (change : KeyChange) : List SuccessionLink :=
  change.decoys ++ change.chain

/-- The signing keys the chain left. -/
def left (change : KeyChange) : List String :=
  change.chain.map SuccessionLink.oldSigningPublicKey

end KeyChange

/-- Whether a link leads on from where another led to. -/
structure LeadsOn (link next : SuccessionLink) : Prop where
  encryption : next.oldEncryptionPublicKey = link.newEncryptionPublicKey
  signing : next.oldSigningPublicKey = link.newSigningPublicKey
  mlDsa : next.oldMlDsaPublicKey = link.newMlDsaPublicKey

/-- Whether a link leads to the keys served. -/
structure LeadsTo (link : SuccessionLink) (served : ServedIdentity) : Prop where
  encryption : link.newEncryptionPublicKey = served.encryptionPublicKey
  signing : link.newSigningPublicKey = served.signingPublicKey
  mlDsa : some link.newMlDsaPublicKey = served.mlDsaPublicKey
  kem : some link.newKemPublicKey = served.kemPublicKey

/-- A chain from a pin's keys to the served ones, after decoys. -/
structure Primitives.Explains
    (P : Primitives)
    (pin : PinKeys)
    (change : KeyChange) :
    Prop where
  decoys : ∀ link ∈ change.decoys, P.leavesPin pin link = false
  starts : ∃ first rest, change.chain = first :: rest ∧
    P.leavesPin pin first = true
  linked : List.IsChain LeadsOn change.chain
  ends : ∃ last, change.chain.getLast? = some last ∧
    LeadsTo last change.served

/-- A key change followed from a pin, by the keys its links passed through. -/
structure Primitives.Follows
    (P : Primitives)
    (pin : ContactPin)
    (change : KeyChange)
    (next : ContactPin) :
    Prop where
  succession : P.comparePin pin.toPinKeys change.served = .succession
  explained : P.Explains pin.toPinKeys change
  followed : P.pinAfterSuccession pin change.served change.now
    (P.keysPassedThrough pin.toPinKeys change.links) = .ok next

namespace Primitives

variable {P : Primitives}

variable {pin : PinKeys}

theorem keysPassedThrough_decoys
    {decoys links : List SuccessionLink}
    (apart : ∀ link ∈ decoys, P.leavesPin pin link = false) :
    P.keysPassedThrough pin (decoys ++ links) =
      P.keysPassedThrough pin links := by
  induction decoys with
  | nil =>
    rfl
  | cons first rest inductionHypothesis =>
    have skipped : ¬ P.leavesPin pin first = true := by
      rw [apart first mem_cons_self]
      exact Bool.false_ne_true
    rw [cons_append, keysPassedThrough, if_neg skipped]
    exact inductionHypothesis fun link member =>
      apart link (mem_cons_of_mem first member)

theorem Explains.keysPassedThrough
    {change : KeyChange}
    (explained : P.Explains pin change) :
    P.keysPassedThrough pin change.links = change.left := by
  obtain ⟨first, rest, isChain, leaves⟩ := explained.starts
  rw [KeyChange.links, keysPassedThrough_decoys explained.decoys,
    KeyChange.left, isChain, Primitives.keysPassedThrough, if_pos leaves]

theorem rises_of_succession
    {served : ServedIdentity}
    (succession : P.comparePin pin served = .succession) :
    pin.keyVersion.getD 1 < served.keyVersion ∧
      (P.pinTrust pin).held = true := by
  unfold comparePin at succession
  split at succession
  · split at succession
    · split at succession <;> simp at succession
    · simp at succession
  · split at succession
    · simp at succession
    · split at succession
      · assumption
      · simp at succession

/-- What following one key change makes of a pin. -/
structure AfterChange
    (P : Primitives)
    (pin : ContactPin)
    (change : KeyChange)
    (next : ContactPin) :
    Prop where
  same : P.comparePin next.toPinKeys change.served = .same
  trust : P.pinTrust next.toPinKeys = P.pinTrust pin.toPinKeys
  rises : pin.version < next.version
  previous : next.previous =
    keysKept pin next.signingPublicKey change.left

/-- A followed change leaves the pin that the change describes. -/
theorem Follows.after
    {pin next : ContactPin}
    {change : KeyChange}
    (follows : P.Follows pin change next) :
    AfterChange P pin change next := by
  obtain ⟨higher, held⟩ := rises_of_succession follows.succession
  have followed := follows.followed
  rw [follows.explained.keysPassedThrough, pinAfterSuccession, if_pos held]
    at followed
  cases made : P.pinKeysOfServed change.served
      (if P.pinTrust pin.toPinKeys = .verified then .verified else .seen) with
  | error reason =>
    simp [made, throwsOn, bind, Except.bind] at followed
  | ok keys =>
    simp only [made, throwsOn, bind, Except.bind, Except.ok.injEq]
      at followed
    subst followed
    have holds := pinOfServed made
    refine ⟨comparePin_pinOfServed holds, ?_, ?_, ?_⟩
    · rw [holds.trust]
      rcases held_iff.mp held with verified | seen
      · simp [verified]
      · simp [seen]
    · simp only [ContactPin.version, holds.keyVersion, Option.getD_some]
      exact higher
    · simp [ContactPin.previous, holds.signingPublicKey]

end Primitives

/-- A run of key changes followed from a pin, each with the pin it found. -/
inductive Primitives.FollowedFrom (P : Primitives) (first : ContactPin) :
    List (ContactPin × KeyChange) → ContactPin → Prop
  | start : P.FollowedFrom first [] first
  | follow
      {earlier : List (ContactPin × KeyChange)}
      {pin next : ContactPin}
      {change : KeyChange}
      (before : P.FollowedFrom first earlier pin)
      (follows : P.Follows pin change next) :
      P.FollowedFrom first (earlier ++ [(pin, change)]) next

/-- Whether a signing key was held before, or left, in a run of key changes. -/
def HeldBefore
    (first : ContactPin)
    (changes : List (ContactPin × KeyChange))
    (key : String) :
    Prop :=
  key ∈ first.previous ∨
    ∃ step ∈ changes, step.1.signingPublicKey = key ∨ key ∈ step.2.left

/-- What a run of key changes leaves of the pin it started from. -/
structure Primitives.KeepsHistory
    (P : Primitives)
    (first : ContactPin)
    (changes : List (ContactPin × KeyChange))
    (pin : ContactPin) :
    Prop where
  trust : P.pinTrust pin.toPinKeys = P.pinTrust first.toPinKeys
  once : ∀ key,
    pin.previous.count key ≤ max 1 (first.previous.count key)
  kept : ∀ key, key ≠ pin.signingPublicKey →
    (key ∈ pin.previous ↔ HeldBefore first changes key)

namespace Primitives

variable {P : Primitives}

variable {changes : List (ContactPin × KeyChange)}

theorem heldBefore_append
    {first : ContactPin}
    {step : ContactPin × KeyChange}
    {key : String} :
    HeldBefore first (changes ++ [step]) key ↔
      HeldBefore first changes key ∨
        step.1.signingPublicKey = key ∨ key ∈ step.2.left := by
  simp only [HeldBefore, mem_append, mem_singleton, or_and_right,
    exists_or, exists_eq_left, or_assoc]

theorem keepsHistory_start (first : ContactPin) :
    P.KeepsHistory first [] first where
  trust := rfl
  once _ := le_max_right ..
  kept key _ := by simp [HeldBefore]

/-- One more followed change keeps the history and the trust. -/
theorem keepsHistory_follow
    {first pin next : ContactPin}
    {change : KeyChange}
    (holds : P.KeepsHistory first changes pin)
    (after : AfterChange P pin change next) :
    P.KeepsHistory first (changes ++ [(pin, change)]) next where
  trust := after.trust.trans holds.trust
  once := by
    intro key
    rw [after.previous]
    calc (keysKept pin next.signingPublicKey change.left).count key
        ≤ max 1 ((Retired.leaveOut next.signingPublicKey
            pin.previous).count key) := Retired.count_keepEach_le
      _ ≤ max 1 (pin.previous.count key) :=
          max_le_max le_rfl Retired.count_leaveOut_le
      _ ≤ max 1 (max 1 (first.previous.count key)) :=
          max_le_max le_rfl (holds.once key)
      _ = max 1 (first.previous.count key) := by
          rw [← max_assoc, max_self]
  kept := by
    intro key retired
    rw [after.previous, keysKept, Retired.mem_keepEach,
      Retired.mem_leaveOut, mem_cons, heldBefore_append]
    by_cases current : key = pin.signingPublicKey
    · simp [current, current ▸ retired]
    · rw [holds.kept key current]
      simp [retired, current, Ne.symm current]

theorem FollowedFrom.keepsHistory
    {first pin : ContactPin}
    (run : P.FollowedFrom first changes pin) :
    P.KeepsHistory first changes pin := by
  induction run with
  | start =>
    exact keepsHistory_start first
  | follow before follows inductionHypothesis =>
    exact keepsHistory_follow inductionHypothesis follows.after

end Primitives

/-- What a followed key change leaves of a pin, whatever was followed before. -/
structure Primitives.Survives
    (P : Primitives)
    (first : ContactPin)
    (changes : List (ContactPin × KeyChange))
    (pin : ContactPin)
    (change : KeyChange)
    (next : ContactPin) :
    Prop where
  /-- The new pin is of the served keys. -/
  same : P.comparePin next.toPinKeys change.served = .same
  /-- It is verified if the first pin was, first-seen if that was. -/
  held : (P.pinTrust first.toPinKeys).held = true
  trust : P.pinTrust next.toPinKeys = P.pinTrust first.toPinKeys
  /-- Its key version is higher. -/
  rises : pin.version < next.version
  /-- Its own signing key is not among those it keeps. -/
  current : next.signingPublicKey ∉ next.previous
  /-- It keeps the signing keys held or left before, but its own. -/
  kept : ∀ key, key ∈ next.previous ↔
    HeldBefore first (changes ++ [(pin, change)]) key ∧
      key ≠ next.signingPublicKey
  /-- None is added that is there already. -/
  once : ∀ key,
    next.previous.count key ≤ max 1 (first.previous.count key)

/--
However often a contact's keys changed, and whichever keys came back, a pin
that follows the next change is one of the served keys, as trusted as the first
pin was, at a higher version, with every signing key it left kept once.
-/
theorem Primitives.followed_survives
    (P : Primitives)
    (first pin next : ContactPin)
    (changes : List (ContactPin × KeyChange))
    (change : KeyChange)
    (run : P.FollowedFrom first changes pin)
    (follows : P.Follows pin change next) :
    P.Survives first changes pin change next := by
  have after := follows.after
  have history := (Primitives.FollowedFrom.follow run follows).keepsHistory
  have absent : next.signingPublicKey ∉ next.previous := by
    rw [after.previous, Primitives.keysKept, Retired.mem_keepEach,
      Retired.mem_leaveOut]
    rintro (⟨_, retired⟩ | ⟨_, retired⟩) <;> exact retired rfl
  refine ⟨after.same, ?_, history.trust, after.rises, absent, ?_,
    history.once⟩
  · rw [← run.keepsHistory.trust]
    exact (Primitives.rises_of_succession follows.succession).2
  · intro key
    by_cases current : key = next.signingPublicKey
    · subst current
      exact iff_of_false absent fun both => both.2 rfl
    · rw [history.kept key current]
      exact (and_iff_left current).symm

def toyServed (keyVersion : Int) (number : Nat) : ServedIdentity where
  keyVersion := keyVersion
  encryptionPublicKey := bytesText 32 number
  signingPublicKey := bytesText 32 number
  mlDsaPublicKey := some (bytesText ML_DSA_PUBLIC_KEY_BYTES number)
  kemPublicKey := some (bytesText KEM_PUBLIC_KEY_BYTES number)

def toyContact (keyVersion : Int) (number : Nat) : ContactPin where
  toKeyFields := toyFields (some keyVersion) number
  fingerprint := ""
  previousSigningKeys := none
  keysReplacedAt := none
  resealShares := none

def toyChange (from_ to_ : Nat) (oldKeyVersion newKeyVersion : Int) :
    KeyChange where
  served := toyServed newKeyVersion to_
  decoys := [Identities.toyLink to_ 9 oldKeyVersion newKeyVersion]
  chain := [Identities.toyLink from_ to_ oldKeyVersion newKeyVersion]
  now := "2026-01-01T00:00:00.000Z"

theorem canonicalBytes_bytesText
    {length number : Nat}
    {expected : Option Nat}
    (positive : 0 < length)
    (fits : expected.all (length = ·) = true) :
    canonicalBytes (bytesText length number) expected =
      .ok (List.replicate length (UInt8.ofNat number)) := by
  have nonempty : List.replicate length (UInt8.ofNat number) ≠ [] := by
    simp [positive.ne']
  have read : Base64url.decode (bytesText length number) =
      some (List.replicate length (UInt8.ofNat number)) :=
    Base64url.decode_eq_some.mpr ⟨rfl, nonempty⟩
  have some_ : bytesText length number ≠ "" := by
    intro empty
    rw [empty] at read
    simp [Base64url.decode, Base64url.digitsOf] at read
  rw [canonicalBytes, if_neg some_, read]
  simp [fits]

theorem keyDigest_toy
    {length number : Nat}
    (long : 30 < length) :
    byFirstKey.keyDigest (List.replicate length (UInt8.ofNat number)) =
      hexOf (List.replicate 32 (UInt8.ofNat number)) := by
  have byte : (List.replicate length (UInt8.ofNat number)).getD 30 0 =
      UInt8.ofNat number := by
    rw [getD_eq_getElem _ _ (by simpa using long),
      getElem_replicate]
  show hexOf (List.replicate 32 (UInt8.ofNat
    ((List.replicate length (UInt8.ofNat number)).getD 30 0).toNat)) = _
  rw [byte, UInt8.ofNat_toNat]

/-- A toy row is pinned with its own number. -/
theorem pinKeysOfServed_toy
    {keyVersion : Int}
    (number : Nat)
    (counts : 1 ≤ keyVersion ∧ keyVersion ≤ maxSafe) :
    byFirstKey.pinKeysOfServed (toyServed keyVersion number) .seen =
      .ok ⟨toyFields (some keyVersion) number, ""⟩ := by
  have fields : byFirstKey.keysOfServed (toyServed keyVersion number) =
      .ok (toyFields (some keyVersion) number) := by
    have version : Primitives.servedVersion keyVersion = .ok keyVersion :=
      if_pos counts
    rw [Primitives.keysOfServed]
    simp only [toyServed, Option.getD_some,
      canonicalBytes_bytesText (show 0 < ML_DSA_PUBLIC_KEY_BYTES by decide)
        (show (some ML_DSA_PUBLIC_KEY_BYTES).all
          (ML_DSA_PUBLIC_KEY_BYTES = ·) = true by decide),
      canonicalBytes_bytesText (show 0 < KEM_PUBLIC_KEY_BYTES by decide)
        (show (some KEM_PUBLIC_KEY_BYTES).all
          (KEM_PUBLIC_KEY_BYTES = ·) = true by decide),
      version, bind, Except.bind,
      keyDigest_toy (show 30 < ML_DSA_PUBLIC_KEY_BYTES by decide),
      keyDigest_toy (show 30 < KEM_PUBLIC_KEY_BYTES by decide)]
    rfl
  rw [Primitives.pinKeysOfServed, fields]
  simp [withReason, bind, Except.bind, keyCommitment_toyFields]

/-- A toy link leaves a pin exactly when it starts at its number. -/
theorem leavesPin_toyLink
    {pinned from_ to_ : Nat}
    {keyVersion oldKeyVersion newKeyVersion : Int}
    (low : pinned < 256)
    (lowToo : from_ < 256) :
    byFirstKey.leavesPin ⟨toyFields (some keyVersion) pinned, ""⟩
      (Identities.toyLink from_ to_ oldKeyVersion newKeyVersion) =
        decide (from_ = pinned) := by
  have digest : byFirstKey.servedKeyDigest
      (bytesText ML_DSA_PUBLIC_KEY_BYTES from_) =
        some (hexOf (List.replicate 32 (UInt8.ofNat from_))) := by
    rw [Primitives.servedKeyDigest,
      canonicalBytes_bytesText (by decide) (by rfl)]
    exact congrArg some (keyDigest_toy (by decide))
  have apart := @Identities.bytesText_inj 32 from_ pinned (by decide) lowToo low
  simp only [Primitives.leavesPin, Identities.toyLink, Identities.toyKeys,
    toyFields, digest]
  by_cases same : from_ = pinned
  · subst same
    simp
  · simp [apart, same]

def toyFollowed (pin : ContactPin) (from_ to_ : Nat) (keyVersion : Int) :
    ContactPin where
  toKeyFields := toyFields (some keyVersion) to_
  fingerprint := ""
  previousSigningKeys :=
    some (Primitives.keysKept pin (bytesText 32 to_) [bytesText 32 from_])
  keysReplacedAt := some "2026-01-01T00:00:00.000Z"
  resealShares := some true

theorem given_bytesText
    {length number : Nat}
    (positive : 0 < length) :
    given (some (bytesText length number)) ≠ none := by
  have read := @canonicalBytes_bytesText length number none positive rfl
  intro missing
  unfold given at missing
  split at missing
  · next empty =>
      rw [Option.some.inj empty] at read
      have lengths := congrArg List.length (Except.ok.inj read)
      rw [length_replicate] at lengths
      exact positive.ne lengths
  · simp at missing

/-- A toy change that raises the key version is followed. -/
theorem follows_toyChange
    {pin : ContactPin}
    {from_ to_ : Nat}
    {oldKeyVersion newKeyVersion : Int}
    (pinned : pin.toPinKeys =
      ⟨toyFields (some oldKeyVersion) from_, ""⟩)
    (low : from_ < 256)
    (lowToo : to_ < 256)
    (apart : from_ ≠ to_)
    (counts : 1 ≤ newKeyVersion ∧ newKeyVersion ≤ maxSafe)
    (rises : oldKeyVersion < newKeyVersion) :
    byFirstKey.Follows pin (toyChange from_ to_ oldKeyVersion newKeyVersion)
      (toyFollowed pin from_ to_ newKeyVersion) := by
  have seen : byFirstKey.pinTrust pin.toPinKeys = .seen := by
    rw [pinned]
    exact Primitives.pinTrust_eq_seen.mpr
      ⟨rfl, _, keyCommitment_toyFields _ _⟩
  have held : (byFirstKey.pinTrust pin.toPinKeys).held = true := by
    rw [seen]
    rfl
  have other : bytesText 32 from_ ≠ bytesText 32 to_ := fun same =>
    apart ((Identities.bytesText_inj (by decide) low lowToo).mp same)
  have explained : byFirstKey.Explains pin.toPinKeys
      (toyChange from_ to_ oldKeyVersion newKeyVersion) := by
    rw [pinned]
    refine ⟨?_, ⟨_, [], rfl, ?_⟩, isChain_singleton _,
      _, rfl, rfl, rfl, rfl, rfl⟩
    · intro link member
      rw [mem_singleton.mp member, leavesPin_toyLink low lowToo]
      exact decide_eq_false apart.symm
    · rw [leavesPin_toyLink low low]
      exact decide_eq_true rfl
  have succession : byFirstKey.comparePin pin.toPinKeys
      (toyServed newKeyVersion to_) = .succession := by
    rw [Primitives.comparePin, if_neg, if_neg, if_pos]
    · refine ⟨?_, held⟩
      rw [pinned]
      exact rises
    · rintro (missing | missing)
      · exact given_bytesText (by decide) missing
      · exact given_bytesText (by decide) missing
    · rw [pinned]
      exact fun both => other both.1
  refine ⟨succession, explained, ?_⟩
  have made := pinKeysOfServed_toy to_ counts
  rw [explained.keysPassedThrough, Primitives.pinAfterSuccession,
    if_pos held, seen]
  simp only [toyChange, made, throwsOn, bind, Except.bind, reduceCtorEq,
    ↓reduceIte]
  rfl

/--
A contact whose first keys come back is pinned at them again, first-seen as at
first, with the keys between them kept and its own not.
-/
theorem followed_survives_returned :
    ∃ next, next.previous = [bytesText 32 2] ∧
      byFirstKey.Survives (toyContact 1 1)
        [(toyContact 1 1, toyChange 1 2 1 2)]
        (toyFollowed (toyContact 1 1) 1 2 2) (toyChange 2 1 2 3) next := by
  have away := @follows_toyChange (toyContact 1 1) 1 2 1 2 rfl (by decide)
    (by decide) (by decide) (by decide) (by decide)
  have back := @follows_toyChange (toyFollowed (toyContact 1 1) 1 2 2) 2 1 2 3
    rfl (by decide) (by decide) (by decide) (by decide) (by decide)
  refine ⟨_, ?_, Primitives.followed_survives byFirstKey _ _ _ _ _
    (Primitives.FollowedFrom.follow .start away) back⟩
  decide

end HushOS
