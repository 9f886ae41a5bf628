import HushOS.Identities.Links
import HushOS.Toolkit.Runs
import HushOS.Toolkit.Tables

namespace HushOS

open Toolkit

namespace Auth

/-!
# An account's rows

What the server keeps of one account: its credential, its root's envelopes, its
identity with every identity it replaced, its devices and its sessions.  Runs
are serial, each write one step.  Most writes lock the account's row first;
`registerDevice`, `signOutDevice`, `touchSession` and the statements of
`cleanupExpired` do not, and what those do overlapping another write is not
covered.  Sign-in ceremonies, the mail they begin with and what only the
account's own device reads of a sealed value stand in no row here.
-/

/-- A device's or a workspace's id, as text. -/
abbrev Id := String

/-- The ML-KEM key of an identity, its seed wrapped. -/
structure Kem where
  publicKey : Bytes
  seedNonce : Bytes
  encryptedSeed : Bytes
  deriving DecidableEq

/-- The ML-DSA key of an identity, its seed wrapped, and the keys statement. -/
structure MlDsa where
  publicKey : Bytes
  seedNonce : Bytes
  encryptedSeed : Bytes
  keysSignature : Bytes
  deriving DecidableEq

/-- What every identity holds: its classical keys, the private ones wrapped. -/
structure IdentityCommon where
  keyVersion : Nat
  wrappingSalt : Bytes
  encryptionPublicKey : Bytes
  encryptionPrivateKeyNonce : Bytes
  encryptedEncryptionPrivateKey : Bytes
  signingPublicKey : Bytes
  signingSeedNonce : Bytes
  encryptedSigningSeed : Bytes
  deriving DecidableEq

/-- A row of `account_identities`. -/
structure Identity extends IdentityCommon where
  kem : Option Kem
  mlDsa : Option MlDsa
  deriving DecidableEq

/-- An identity of version 2, as a client gives it. -/
structure IdentityV2 extends IdentityCommon where
  kem : Kem
  mlDsa : MlDsa
  deriving DecidableEq

/-- The row an identity of version 2 is stored as. -/
def IdentityV2.row (given : IdentityV2) : Identity :=
  { toIdentityCommon := given.toIdentityCommon
    kem := some given.kem
    mlDsa := some given.mlDsa }

/-- A row of `account_identity_history`: an identity, and what replaced it. -/
structure Replaced extends Identity where
  replacedByKeyVersion : Nat
  newEncryptionPublicKey : Bytes
  newSigningPublicKey : Bytes
  newKemPublicKey : Bytes
  newMlDsaPublicKey : Option Bytes
  successionSignature : Bytes
  successionConsent : Option Bytes
  deriving DecidableEq

/-- `account_devices.kind`. -/
inductive DeviceKind where
  | web
  | ios
  | android
  deriving DecidableEq

/-- How a sign-in made a device. -/
inductive CreatedDevice where
  | enrolment
  | password
  deriving DecidableEq

/-- A row of `account_devices`. -/
structure Device where
  /-- Null until the client describes itself. -/
  kind : Option DeviceKind
  signingPublicKey : Option Bytes
  approvedAt : Option Nat
  createdAt : Nat
  lastSeenAt : Nat
  revokedAt : Option Nat
  deriving DecidableEq

/-- A row of `sessions`, under the digest of its token. -/
structure Session where
  credentialVersion : Nat
  deviceId : Option Id
  createdAt : Nat
  expiresAt : Nat
  lastSeenAt : Nat
  deriving DecidableEq

/-- A row of `account_recovery_keys`. -/
structure RecoveryKey where
  keyVersion : Nat
  recoveryVersion : Nat
  confirmedAt : Option Nat
  deriving DecidableEq

/-- A row of `workspace_keys`. -/
structure Grant where
  keyVersion : Nat
  workspaceKeyVersion : Nat
  deriving DecidableEq

/-- A row of `account_settings_keys`. -/
structure SettingsKey where
  nonce : Bytes
  ciphertext : Bytes
  deriving DecidableEq

/-- The rows of one account. -/
structure Account where
  userId : String
  createdAt : Nat
  suspendedAt : Option Nat
  /-- `opaque_credentials.version`. -/
  credentialVersion : Nat
  /-- `account_keys`: the root's version, and the credential its envelope is under. -/
  keyVersion : Nat
  envelopeCredentialVersion : Nat
  recovery : Option RecoveryKey
  identity : Option Identity
  history : List Replaced
  settingsKey : Option SettingsKey
  grants : OrderedMap Id Grant
  devices : OrderedMap Id Device
  sessions : OrderedMap Bytes Session

/-- What a write answers. -/
inductive Answer where
  | ok
  | no
  | suspended
  | opened
      (deviceId : Id)
      (attached registered : Bool)
      (created : Option CreatedDevice)
  | session
  | current
  | missing
  | registered
  | keyInUse
  | removed (count : Nat)
  | noIdentity
  | notUpgraded
  | stale
  | historyFull
  | unchanged
  | badSignature
  | noLink
  | stored (first : Bool)
  | mismatch
  | replaced (keyVersion : Nat)
  /-- A constraint of the tables does not hold, and the write is undone. -/
  | failed
  deriving DecidableEq

def MAX_INTEGER : Nat := 2147483647

/-- The lengths an identity's columns are checked for. -/
def Identity.valid (row : Identity) : Bool :=
  0 < row.keyVersion && row.keyVersion ≤ MAX_INTEGER &&
    row.wrappingSalt.length = 32 &&
    row.encryptionPublicKey.length = 32 &&
    row.encryptionPrivateKeyNonce.length = 24 &&
    row.encryptedEncryptionPrivateKey.length = 48 &&
    row.signingPublicKey.length = 32 &&
    row.signingSeedNonce.length = 24 &&
    row.encryptedSigningSeed.length = 48 &&
    (row.kem.all fun kem =>
      kem.publicKey.length = KEM_PUBLIC_KEY_BYTES &&
        kem.seedNonce.length = 24 && kem.encryptedSeed.length = 80) &&
    (row.mlDsa.all fun mlDsa => row.kem.isSome &&
      mlDsa.publicKey.length = ML_DSA_PUBLIC_KEY_BYTES &&
        mlDsa.seedNonce.length = 24 && mlDsa.encryptedSeed.length = 48 &&
        mlDsa.keysSignature.length = HYBRID_SIGNATURE_BYTES)

/-- `account_identities.version`: 2 once the identity has an ML-DSA key. -/
def Identity.version (row : Identity) : Nat :=
  if row.mlDsa.isSome then 2 else 1

/-- What a replaced identity's columns are checked for. -/
def Replaced.valid (row : Replaced) : Bool :=
  row.toIdentity.valid && row.keyVersion < row.replacedByKeyVersion &&
    row.replacedByKeyVersion ≤ MAX_INTEGER &&
    row.newEncryptionPublicKey.length = 32 &&
    row.newSigningPublicKey.length = 32 &&
    row.newKemPublicKey.length = KEM_PUBLIC_KEY_BYTES &&
    (if row.mlDsa.isSome then
      (row.newMlDsaPublicKey.any fun key =>
        key.length = ML_DSA_PUBLIC_KEY_BYTES) &&
        row.successionSignature.length = HYBRID_SIGNATURE_BYTES
    else
      row.newMlDsaPublicKey.isNone &&
        row.successionSignature.length = SIGNATURE_BYTES) &&
    (row.successionConsent.all fun consent => row.mlDsa.isSome &&
      consent.length = Identities.SUCCESSION_CONSENT_BYTES)

/-- A succession, its keys as bytes. -/
structure SuccessionStatement where
  userId : String
  oldKeyVersion : Nat
  newKeyVersion : Nat
  oldEncryptionPublicKey : Bytes
  oldSigningPublicKey : Bytes
  oldMlDsaPublicKey : Bytes
  newEncryptionPublicKey : Bytes
  newSigningPublicKey : Bytes
  newMlDsaPublicKey : Bytes
  newKemPublicKey : Bytes

section Statements

variable (P : Primitives)

/-- The bytes of a succession's fields behind a head. -/
def successionFields
    (head : List Json.Scalar)
    (input : SuccessionStatement) :
    Bytes :=
  Identities.statement
    (head ++
      [.text input.userId.toLower, .integer input.oldKeyVersion,
        .integer input.newKeyVersion,
        .text (Base64url.encode input.oldEncryptionPublicKey),
        .text (Base64url.encode input.oldSigningPublicKey),
        .text (Base64url.encode input.oldMlDsaPublicKey),
        .text (Base64url.encode input.newEncryptionPublicKey),
        .text (Base64url.encode input.newSigningPublicKey),
        .text (Base64url.encode input.newMlDsaPublicKey),
        .text (P.digest input.newKemPublicKey)])

/-- The statement the old identity signs. -/
def successionStatement (input : SuccessionStatement) : Bytes :=
  successionFields P [.text "hushos/identity/succession", .integer 2] input

/-- The consent to a succession, in a role. -/
def successionConsentStatement
    (input : SuccessionStatement)
    (role : Identities.ConsentRole) :
    Bytes :=
  successionFields P
    [.text "hushos/identity/succession-consent", .integer 1, .text role.name]
    input

/-- Whether both halves of a consent hold. -/
def successionConsentHolds
    (input : SuccessionStatement)
    (consent : Bytes) :
    Bool :=
  consent.length = Identities.SUCCESSION_CONSENT_BYTES &&
    P.verifyHybrid (successionConsentStatement P input .old)
      (consent.take HYBRID_SIGNATURE_BYTES)
      { signingPublicKey := input.oldSigningPublicKey
        mlDsaPublicKey := input.oldMlDsaPublicKey } &&
    P.verifyHybrid (successionConsentStatement P input .new)
      (consent.drop HYBRID_SIGNATURE_BYTES)
      { signingPublicKey := input.newSigningPublicKey
        mlDsaPublicKey := input.newMlDsaPublicKey }

/-- What a device signs to come back to its own row. -/
def deviceSessionStatement
    (userId deviceId : String)
    (attemptDigest : Bytes) :
    Bytes :=
  Identities.statement
    [.text "hushos/device/session", .integer 1, .text userId.toLower,
      .text deviceId.toLower, .text (Base64url.encode attemptDigest)]

end Statements

/-- A device that proves it holds its key. -/
structure DeviceProof where
  id : Id
  signature : Bytes
  attemptDigest : Bytes

/-- What a sign-in brings, and the id a new device is given. -/
structure SignIn where
  credentialVersion : Nat
  tokenHash : Bytes
  previousTokenHash : Option Bytes
  expiresAt : Nat
  device : Option DeviceProof
  newDeviceId : Id

/-- Approved and not revoked. -/
def Device.live (device : Device) : Bool :=
  device.revokedAt.isNone && device.approvedAt.isSome

/-- The device a proof leads back to. -/
def provenDevice
    (P : Primitives)
    (account : Account)
    (proof : DeviceProof) :
    Option Id := do
  let row ← account.devices.get? proof.id
  let key ← row.signingPublicKey
  if isUuid proof.id && row.live &&
      P.verifyStatement
        (deviceSessionStatement account.userId proof.id proof.attemptDigest)
        proof.signature key then
    some proof.id
  else
    none

/-- The device the browser's previous session lends: one without a key. -/
def lentDevice (account : Account) (tokenHash : Bytes) : Option Id := do
  let previous ← account.sessions.get? tokenHash
  let id ← previous.deviceId
  let row ← account.devices.get? id
  if row.live && row.signingPublicKey.isNone then some id else none

/-- The device a sign-in comes back on, none for a new one. -/
def deviceOf (P : Primitives) (account : Account) (input : SignIn) : Option Id :=
  match input.device.bind (provenDevice P account) with
  | some id => some id
  | none => input.previousTokenHash.bind (lentDevice account)

/-- The sessions of some devices, ended. -/
def Account.endSessions (account : Account) (gone : Id → Bool) : Account :=
  { account with
    sessions := account.sessions.retain fun _ session =>
      !(session.deviceId.any gone) }

def DEVICE_ENROLMENT_SECONDS : Nat := 30 * 60

/-- `createSession`. -/
def createSession
    (P : Primitives)
    (account : Account)
    (input : SignIn)
    (now : Nat) : Answer × Account :=
  if account.suspendedAt.isSome then
    (.suspended, account)
  else if account.credentialVersion ≠ input.credentialVersion ∨
      account.envelopeCredentialVersion ≠ account.credentialVersion then
    (.no, account)
  else
    let found := deviceOf P account input
    let id := found.getD input.newDeviceId
    -- A new row takes a fresh id; a row that is there is seen again.
    let row : Device := match account.devices.get? id with
      | some row => { row with lastSeenAt := now }
      | none =>
        { kind := none
          signingPublicKey := none
          approvedAt := some now
          createdAt := now
          lastSeenAt := now
          revokedAt := none }
    let left := (account.sessions.retain fun token _ =>
      input.previousTokenHash ≠ some token).retain fun _ session =>
        session.deviceId ≠ some id
    if (found.isNone ∧ account.devices.has id) ∨
        left.has input.tokenHash ∨ input.expiresAt ≤ now then
      (.failed, account)
    else
      (.opened id found.isSome
          (found.isSome && (row.signingPublicKey.isSome || row.kind.isSome))
          (if found.isSome then
            none
          else if account.devices.size = 0 ∧
              now < account.createdAt + DEVICE_ENROLMENT_SECONDS then
            some .enrolment
          else
            some .password),
        { account with
          devices := account.devices.set id row
          sessions := left.set input.tokenHash
            { credentialVersion := input.credentialVersion
              deviceId := some id
              createdAt := now
              expiresAt := input.expiresAt
              lastSeenAt := now } })

/-- How long a session lives, idle and in all. -/
structure Lifetime where
  idleSeconds : Nat
  maxSeconds : Nat

/-- `getSession`: the device a token's session is on, where it is answered for. -/
def getSession
    (account : Account)
    (tokenHash : Bytes)
    (lifetime : Lifetime)
    (now : Nat) : Option Id := do
  let session ← account.sessions.get? tokenHash
  let id ← session.deviceId
  let device ← account.devices.get? id
  if session.credentialVersion = account.credentialVersion ∧
      device.live = true ∧ now < session.expiresAt ∧
      now < session.createdAt + lifetime.maxSeconds ∧
      account.suspendedAt.isNone then
    some id
  else
    none

/-- What an answered `getSession` moves: the idle deadline and what was last seen. -/
def touchSession
    (account : Account)
    (tokenHash : Bytes)
    (lifetime : Lifetime)
    (now : Nat) : Account :=
  match getSession account tokenHash lifetime now with
  | none => account
  | some id =>
    if (account.sessions.get? tokenHash).any fun session =>
        session.lastSeenAt + 300 < now then
      { account with
        sessions := account.sessions.update (fun token _ => token = tokenHash)
          fun session =>
            { session with
              lastSeenAt := now
              expiresAt := min (now + lifetime.idleSeconds)
                (session.createdAt + lifetime.maxSeconds) }
        devices := account.devices.update (fun key _ => key = id)
          fun device => { device with lastSeenAt := now } }
    else
      account

/-- Some devices revoked where they are not yet. -/
def Account.revoke
    (account : Account)
    (meets : Id → Device → Bool)
    (now : Nat) : Account :=
  { account with
    devices := account.devices.update
      (fun id row => meets id row && row.revokedAt.isNone)
      fun row => { row with revokedAt := some now } }

/-- A session is gone: its browser signed in elsewhere, or signed out. -/
def Account.endSession (account : Account) (tokenHash : Bytes) : Account :=
  { account with sessions := account.sessions.erase tokenHash }

/-- `signOutDevice`. -/
def signOutDevice
    (account : Account)
    (tokenHash : Bytes)
    (now : Nat) : Answer × Account :=
  match account.sessions.get? tokenHash with
  | none => (.ok, account)
  | some session =>
    match session.deviceId with
    | none => (.ok, account.endSession tokenHash)
    | some id =>
      (.ok, ((account.revoke (fun key _ => key = id) now).endSessions
        fun key => key = id).endSession tokenHash)

/-- `registerDevice`: the session's own device describes itself, once. -/
def registerDevice
    (account : Account)
    (tokenHash : Bytes)
    (kind : DeviceKind)
    (signingPublicKey : Option Bytes)
    (now : Nat) : Answer × Account :=
  match (account.sessions.get? tokenHash).filter
      (fun session => now < session.expiresAt) >>= Session.deviceId with
  | none => (.session, account)
  | some id =>
    match account.devices.get? id with
    | none => (.session, account)
    | some device =>
      if device.revokedAt.isSome then
        (.session, account)
      else if device.kind.isSome then
        (.registered, account)
      else if signingPublicKey.isSome ∧
          account.devices.exists_ (fun _ row =>
            row.signingPublicKey = signingPublicKey) = true then
        (.keyInUse, account)
      else if signingPublicKey.any fun key => key.length ≠ 32 then
        (.failed, account)
      else
        (.ok, { account with
          devices := account.devices.set id
            { device with
              kind := some kind
              signingPublicKey := signingPublicKey
              lastSeenAt := now } })

/-- `actingDevice`: the device of the session that asks. -/
def actingDevice
    (account : Account)
    (tokenHash : Bytes)
    (now : Nat) : Option Id := do
  let session ← account.sessions.get? tokenHash
  let id ← session.deviceId
  let device ← account.devices.get? id
  if now < session.expiresAt ∧ device.revokedAt.isNone then some id else none

/-- `revokeDevice`. -/
def revokeDevice
    (account : Account)
    (deviceId : Id)
    (tokenHash : Bytes)
    (now : Nat) : Answer × Account :=
  match actingDevice account tokenHash now with
  | none => (.session, account)
  | some acting =>
    if acting = deviceId then
      (.current, account)
    else if (account.devices.get? deviceId).any
        (fun row => row.revokedAt.isNone) then
      (.removed 1, (account.revoke (fun id _ => id = deviceId) now).endSessions
        fun id => id = deviceId)
    else
      (.missing, account)

/-- `revokeOtherDevices`; a session without a device ends too. -/
def revokeOtherDevices
    (account : Account)
    (tokenHash : Bytes)
    (now : Nat) : Answer × Account :=
  match actingDevice account tokenHash now with
  | none => (.session, account)
  | some acting =>
    let others := account.devices.select fun id row =>
      id ≠ acting && row.revokedAt.isNone
    let after := (account.revoke (fun id _ => id ≠ acting) now).endSessions
      fun id => others.any fun other => other.1 = id
    (.removed others.length,
      { after with
        sessions := after.sessions.retain fun _ session =>
          session.deviceId.isSome })

/-- Whether no session is on a device. -/
def Account.noSession (account : Account) (id : Id) : Bool :=
  !account.sessions.exists_ fun _ session => session.deviceId = some id

def DAY : Nat := 24 * 60 * 60

/-- `cleanupExpired`, the part on sessions and devices: what each statement picks. -/
def cleanupExpired
    (account : Account)
    (ended : Bytes → Bool)
    (picked : Id → Bool)
    (now : Nat) : Account :=
  let swept := { account with
    sessions := account.sessions.retain fun token session =>
      !(ended token && session.expiresAt < now) }
  let keyed := { swept with
    devices := swept.devices.retain fun id row =>
      !(picked id && row.signingPublicKey.isNone &&
        row.createdAt + DAY < now && swept.noSession id) }
  let idle := keyed.revoke
    (fun id row => picked id && row.signingPublicKey.isSome &&
      row.lastSeenAt + 90 * DAY < now && keyed.noSession id) now
  { idle with
    devices := idle.devices.retain fun id row =>
      !(picked id && row.revokedAt.any fun time => time + 90 * DAY < now) }

/-- `setUserSuspended`. -/
def setUserSuspended
    (account : Account)
    (suspended : Bool)
    (now : Nat) : Account :=
  if suspended then
    { account with
      suspendedAt := some (account.suspendedAt.getD now)
      sessions := .empty }
  else
    { account with suspendedAt := none }

end Auth

end HushOS
