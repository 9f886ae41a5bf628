import HushOS.Primitives

namespace HushOS

open Toolkit

/-!
# Group key successions

A succession replaces the group key by a new one and is tied, by version and
digest, to the last roster under the old key.  As for rosters, reading and
writing statements are inverse (`parseGroupSuccession_eq_ok`).
-/

/-- One group key replaced by the next. -/
structure GroupKeySuccession where
  groupId : String
  oldVersion : Nat
  newVersion : Nat
  oldEd25519PublicKey : String
  oldMlDsaPublicKey : String
  newEd25519PublicKey : String
  newMlDsaPublicKey : String
  lastRosterVersion : Nat
  lastRosterDigest : String
  signerUserId : String
  deriving DecidableEq, Repr

/-- A succession as read or given, before its field checks. -/
structure RawSuccession where
  groupId : Json.Plain
  oldVersion : Json.Plain
  newVersion : Json.Plain
  oldEd25519PublicKey : Json.Plain
  oldMlDsaPublicKey : Json.Plain
  newEd25519PublicKey : Json.Plain
  newMlDsaPublicKey : Json.Plain
  lastRosterVersion : Json.Plain
  lastRosterDigest : Json.Plain
  signerUserId : Json.Plain

def SUCCESSION_DOMAIN : String := "hushos/group/key-succession"

namespace GroupKeySuccession

/-- The key a succession replaces. -/
def oldKey (succession : GroupKeySuccession) : GroupPublicKey where
  ed25519PublicKey := succession.oldEd25519PublicKey
  mlDsaPublicKey := succession.oldMlDsaPublicKey

/-- The key a succession introduces. -/
def newKey (succession : GroupKeySuccession) : GroupPublicKey where
  ed25519PublicKey := succession.newEd25519PublicKey
  mlDsaPublicKey := succession.newMlDsaPublicKey

/-- A succession's fields, as given. -/
def raw (succession : GroupKeySuccession) : RawSuccession where
  groupId := .text succession.groupId
  oldVersion := .number succession.oldVersion
  newVersion := .number succession.newVersion
  oldEd25519PublicKey := .text succession.oldEd25519PublicKey
  oldMlDsaPublicKey := .text succession.oldMlDsaPublicKey
  newEd25519PublicKey := .text succession.newEd25519PublicKey
  newMlDsaPublicKey := .text succession.newMlDsaPublicKey
  lastRosterVersion := .number succession.lastRosterVersion
  lastRosterDigest := .text succession.lastRosterDigest
  signerUserId := .text succession.signerUserId

/-- A succession as its statement lists it. -/
def parts (succession : GroupKeySuccession) : List Json.Plain :=
  [.text SUCCESSION_DOMAIN, .number 1, .text succession.groupId,
    .number succession.oldVersion, .number succession.newVersion,
    .text succession.oldEd25519PublicKey, .text succession.oldMlDsaPublicKey,
    .text succession.newEd25519PublicKey, .text succession.newMlDsaPublicKey,
    .number succession.lastRosterVersion, .text succession.lastRosterDigest,
    .text succession.signerUserId]

/-- A succession that keeps the field rules. -/
structure Valid (succession : GroupKeySuccession) : Prop where
  old_pos : 1 ≤ succession.oldVersion
  new_eq : succession.newVersion = succession.oldVersion + 1
  new_le : succession.newVersion ≤ maxSafe
  groupId : isUuid succession.groupId = true
  oldEd25519PublicKey : isBytesOf succession.oldEd25519PublicKey 32 = true
  oldMlDsaPublicKey :
    isBytesOf succession.oldMlDsaPublicKey ML_DSA_PUBLIC_KEY_BYTES = true
  newEd25519PublicKey : isBytesOf succession.newEd25519PublicKey 32 = true
  newMlDsaPublicKey :
    isBytesOf succession.newMlDsaPublicKey ML_DSA_PUBLIC_KEY_BYTES = true
  tie_pos : 1 ≤ succession.lastRosterVersion
  tie_le : succession.lastRosterVersion ≤ maxSafe
  lastRosterDigest : isDigest succession.lastRosterDigest = true
  signerUserId : isUuid succession.signerUserId = true

theorem raw_injective : Function.Injective raw := by
  intro first second same
  cases first
  cases second
  simp only [raw, RawSuccession.mk.injEq, Json.Plain.text.injEq,
    Json.Plain.number.injEq] at same
  obtain ⟨rfl, rfl, rfl, rfl, rfl, rfl, rfl, rfl, rfl, rfl⟩ := same
  rfl

end GroupKeySuccession

/-- A succession, its fields checked in the order its statement is built. -/
def checkSuccession (raw : RawSuccession) :
    Except CryptoError GroupKeySuccession := do
  let oldVersion ← integer raw.oldVersion "group key version"
  let newVersion ← integer raw.newVersion "group key version"
  refuseIf (newVersion ≠ oldVersion + 1) (invalid "group key version")
  let groupId ← uuid raw.groupId "group id"
  let oldEd25519PublicKey ← bytesOf raw.oldEd25519PublicKey 32 "group key"
  let oldMlDsaPublicKey ←
    bytesOf raw.oldMlDsaPublicKey ML_DSA_PUBLIC_KEY_BYTES "group key"
  let newEd25519PublicKey ← bytesOf raw.newEd25519PublicKey 32 "group key"
  let newMlDsaPublicKey ←
    bytesOf raw.newMlDsaPublicKey ML_DSA_PUBLIC_KEY_BYTES "group key"
  let lastRosterVersion ← integer raw.lastRosterVersion "roster version"
  let lastRosterDigest ← digestOf raw.lastRosterDigest "roster digest"
  let signerUserId ← uuid raw.signerUserId "user id"
  .ok { groupId, oldVersion, newVersion, oldEd25519PublicKey,
        oldMlDsaPublicKey, newEd25519PublicKey, newMlDsaPublicKey,
        lastRosterVersion, lastRosterDigest, signerUserId }

/-- The statement a succession signs. -/
def groupSuccessionStatement (succession : GroupKeySuccession) :
    Except CryptoError Bytes := do
  let checked ← checkSuccession succession.raw
  encodeStatement checked.parts

/-- A succession's fields as a statement lists them, or refused by shape. -/
def rawSuccession (parts : List Json.Plain) :
    Except CryptoError RawSuccession :=
  match parts with
  | [domain, version, groupId, oldVersion, newVersion, oldEd25519PublicKey,
      oldMlDsaPublicKey, newEd25519PublicKey, newMlDsaPublicKey,
      lastRosterVersion, lastRosterDigest, signerUserId] =>
      if domain = .text SUCCESSION_DOMAIN ∧ version = .number 1 then
        .ok { groupId, oldVersion, newVersion, oldEd25519PublicKey,
              oldMlDsaPublicKey, newEd25519PublicKey, newMlDsaPublicKey,
              lastRosterVersion, lastRosterDigest, signerUserId }
      else
        .error (invalid "group key succession")
  | _ => .error (invalid "group key succession")

/-- The succession a statement's bytes hold, if they are its encoding. -/
def parseGroupSuccession (statement : Bytes) :
    Except CryptoError GroupKeySuccession := do
  let parts ← parseStatement statement "group key succession"
  let raw ← rawSuccession parts
  let succession ← checkSuccession raw
  let rebuilt ← encodeStatement succession.parts
  requireCanonical statement rebuilt "group key succession"
  .ok succession

variable {succession : GroupKeySuccession}

/-- A raw succession passes exactly as that of a valid one. -/
theorem checkSuccession_eq_ok
    {raw : RawSuccession} :
    checkSuccession raw = .ok succession ↔
      raw = succession.raw ∧ succession.Valid := by
  obtain ⟨givenId, givenOld, givenNew, givenOldEd, givenOldMl, givenNewEd,
    givenNewMl, givenTie, givenDigest, givenSigner⟩ := raw
  constructor
  · intro accepted
    simp only [checkSuccession, bind_eq_ok, uuid_eq_ok, integer_eq_ok,
      exists_unit, refuseIf_eq_ok, not_not, bytesOf_eq_ok, digestOf_eq_ok,
      Except.ok.injEq] at accepted
    obtain ⟨old, ⟨rfl, oldPositive, _⟩, new, ⟨rfl, _, newSafe⟩, follows, id,
      ⟨rfl, idShaped⟩, oldEd, ⟨rfl, oldEdShaped⟩, oldMl,
      ⟨rfl, oldMlShaped⟩, newEd, ⟨rfl, newEdShaped⟩, newMl,
      ⟨rfl, newMlShaped⟩, tie, ⟨rfl, tiePositive, tieSafe⟩, digest,
      ⟨rfl, digestShaped⟩, signer, ⟨rfl, signerShaped⟩, rfl⟩ := accepted
    exact ⟨rfl, {
      old_pos := oldPositive, new_eq := follows, new_le := newSafe
      groupId := idShaped, oldEd25519PublicKey := oldEdShaped
      oldMlDsaPublicKey := oldMlShaped, newEd25519PublicKey := newEdShaped
      newMlDsaPublicKey := newMlShaped, tie_pos := tiePositive
      tie_le := tieSafe, lastRosterDigest := digestShaped
      signerUserId := signerShaped }⟩
  · rintro ⟨same, valid⟩
    simp only [GroupKeySuccession.raw, RawSuccession.mk.injEq] at same
    obtain ⟨rfl, rfl, rfl, rfl, rfl, rfl, rfl, rfl, rfl, rfl⟩ := same
    have oldSafe : succession.oldVersion ≤ maxSafe := by
      have follows := valid.new_eq
      have safe := valid.new_le
      omega
    have newPositive : 1 ≤ succession.newVersion := by
      have follows := valid.new_eq
      omega
    simp only [checkSuccession, bind_eq_ok, uuid_eq_ok, integer_eq_ok,
      exists_unit, refuseIf_eq_ok, not_not, bytesOf_eq_ok, digestOf_eq_ok,
      Except.ok.injEq]
    exact ⟨_, ⟨rfl, valid.old_pos, oldSafe⟩, _,
      ⟨rfl, newPositive, valid.new_le⟩, valid.new_eq, _,
      ⟨rfl, valid.groupId⟩, _, ⟨rfl, valid.oldEd25519PublicKey⟩, _,
      ⟨rfl, valid.oldMlDsaPublicKey⟩, _, ⟨rfl, valid.newEd25519PublicKey⟩,
      _, ⟨rfl, valid.newMlDsaPublicKey⟩, _,
      ⟨rfl, valid.tie_pos, valid.tie_le⟩, _, ⟨rfl, valid.lastRosterDigest⟩,
      _, ⟨rfl, valid.signerUserId⟩, rfl⟩

/-- A succession is stated when it is valid and encodes. -/
theorem groupSuccessionStatement_eq_ok
    {statement : Bytes} :
    groupSuccessionStatement succession = .ok statement ↔
      succession.Valid ∧ encodeStatement succession.parts = .ok statement := by
  simp only [groupSuccessionStatement, bind_eq_ok, checkSuccession_eq_ok]
  constructor
  · rintro ⟨checked, ⟨same, valid⟩, encoded⟩
    obtain rfl := GroupKeySuccession.raw_injective same
    exact ⟨valid, encoded⟩
  · rintro ⟨valid, encoded⟩
    exact ⟨succession, ⟨rfl, valid⟩, encoded⟩

theorem parseGroupSuccession_eq_ok
    {statement : Bytes} :
    parseGroupSuccession statement = .ok succession ↔
      groupSuccessionStatement succession = .ok statement := by
  simp only [parseGroupSuccession, bind_eq_ok, parseStatement_eq_ok,
    checkSuccession_eq_ok, requireCanonical, exists_unit, refuseIf_eq_ok,
    not_not, Except.ok.injEq, groupSuccessionStatement_eq_ok]
  constructor
  · rintro ⟨parts, _, raw, _, read, ⟨_, valid⟩, rebuilt, encoded, rfl, rfl⟩
    exact ⟨valid, encoded⟩
  · rintro ⟨valid, encoded⟩
    have read : rawSuccession succession.parts = .ok succession.raw := by
      simp [rawSuccession, GroupKeySuccession.parts, GroupKeySuccession.raw]
    exact ⟨succession.parts, encoded, succession.raw, read, succession,
      ⟨rfl, valid⟩, statement, encoded, rfl, rfl⟩

end HushOS
