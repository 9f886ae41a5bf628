import HushOS.Auth.Accounts

namespace HushOS

open Toolkit

namespace Auth

/-!
# What an account's writes change

A password, the root's key or the recovery key is changed under a current
session, and ends every session; an identity is upgraded in place, or succeeded
by one its own keys sign for and kept in the history.  Everything that writes
an account's rows is one step of a run.
-/

/-- A session and the credential it was opened under. -/
structure Asking where
  credentialVersion : Nat
  sessionTokenHash : Bytes

/-- `sessionIsCurrent`. -/
def sessionIsCurrent (account : Account) (input : Asking) (now : Nat) : Bool :=
  (account.sessions.get? input.sessionTokenHash).any fun session =>
    session.credentialVersion = input.credentialVersion &&
      session.credentialVersion = account.credentialVersion &&
      now < session.expiresAt

/-- The same public identity: every key, and the keys statement. -/
def samePublicKeys (first second : Identity) : Bool :=
  first.encryptionPublicKey = second.encryptionPublicKey &&
    first.signingPublicKey = second.signingPublicKey &&
    first.kem.map Kem.publicKey = second.kem.map Kem.publicKey &&
    first.mlDsa.map MlDsa.publicKey = second.mlDsa.map MlDsa.publicKey &&
    first.mlDsa.map MlDsa.keysSignature =
      second.mlDsa.map MlDsa.keysSignature

/-- An earlier identity under the wrapping it is given, its keys as they were. -/
def Identity.rewrapped (row wrap : Identity) : Identity :=
  { row with
    wrappingSalt := wrap.wrappingSalt
    encryptionPrivateKeyNonce := wrap.encryptionPrivateKeyNonce
    encryptedEncryptionPrivateKey := wrap.encryptedEncryptionPrivateKey
    signingSeedNonce := wrap.signingSeedNonce
    encryptedSigningSeed := wrap.encryptedSigningSeed
    kem := row.kem.map fun kem =>
      { kem with
        seedNonce := (wrap.kem.map Kem.seedNonce).getD []
        encryptedSeed := (wrap.kem.map Kem.encryptedSeed).getD [] }
    mlDsa := row.mlDsa.map fun mlDsa =>
      { mlDsa with
        seedNonce := (wrap.mlDsa.map MlDsa.seedNonce).getD []
        encryptedSeed := (wrap.mlDsa.map MlDsa.encryptedSeed).getD [] } }

/-- What a change of the account's security asks for. -/
inductive SecurityAction where
  | password
  | masterKey
  | recoveryKey
  deriving DecidableEq

/-- A change of the account's security. -/
structure SecurityChange extends Asking where
  action : SecurityAction
  /-- The root's version in the new envelope. -/
  keyVersion : Nat
  recovery : Option RecoveryKey
  identity : Option Identity
  identityHistory : Option (List Identity)
  settingsKey : Option SettingsKey
  workspaces : Option (List (Id × Grant))

/-- The wrapping given for an earlier identity. -/
def wrapOf (wraps : List Identity) (row : Replaced) : Option Identity :=
  wraps.find? fun wrap => wrap.keyVersion = row.keyVersion

/-- The grant given for a workspace. -/
def grantOf (given : List (Id × Grant)) (id : Id) : Option Grant :=
  (given.find? fun entry => entry.1 = id).map Prod.snd

/-- What a new root must carry along: the identity, its history, every grant. -/
def rotatesAll (account : Account) (input : SecurityChange) : Bool :=
  let wraps := input.identityHistory.getD []
  (match input.identity, account.identity with
    | some next, some current =>
      next.version = current.version &&
        (next.keyVersion = current.keyVersion ||
          current.version = 1 && next.keyVersion = input.keyVersion &&
            current.keyVersion < next.keyVersion) &&
        samePublicKeys current next
    | _, _ => false) &&
    decide (wraps.map fun wrap => wrap.keyVersion).Nodup &&
    wraps.length = account.history.length &&
    (account.history.all fun row =>
      (wrapOf wraps row).any fun wrap => samePublicKeys row.toIdentity wrap) &&
    (input.workspaces.any fun given =>
      decide (given.map Prod.fst).Nodup &&
        given.length = account.grants.size &&
        account.grants.entries.all fun entry =>
          (grantOf given entry.1).any fun next =>
            next.keyVersion = input.keyVersion &&
              next.workspaceKeyVersion = entry.2.workspaceKeyVersion) &&
    account.settingsKey.isSome = input.settingsKey.isSome

/-- Whether a change is one its action allows. -/
def mayChange (account : Account) (input : SecurityChange) (now : Nat) : Bool :=
  sessionIsCurrent account input.toAsking now && account.identity.isSome &&
    account.envelopeCredentialVersion = input.credentialVersion &&
    input.keyVersion =
      account.keyVersion + (if input.action = .masterKey then 1 else 0) &&
    (account.recovery.any fun held =>
      if input.action = .password then
        input.recovery.isNone
      else
        input.recovery.any fun next =>
          next.recoveryVersion = held.recoveryVersion + 1 &&
            next.keyVersion = input.keyVersion) &&
    (if input.action = .masterKey then
      rotatesAll account input
    else
      input.identity.isNone && input.workspaces.isNone &&
        input.identityHistory.isNone && input.settingsKey.isNone)

/-- `changeAccountSecurity`. -/
def changeAccountSecurity
    (account : Account)
    (input : SecurityChange)
    (now : Nat) : Answer × Account :=
  let wraps := input.identityHistory.getD []
  let history := account.history.map fun row =>
    match wrapOf wraps row with
    | some wrap => { row with toIdentity := row.toIdentity.rewrapped wrap }
    | none => row
  if mayChange account input now = false then
    (.no, account)
  else if (input.identity.any fun row => !row.valid) ||
      history.any fun row => !row.valid then
    (.failed, account)
  else
    (.ok,
      { account with
        credentialVersion := input.credentialVersion + 1
        keyVersion := input.keyVersion
        envelopeCredentialVersion := input.credentialVersion + 1
        recovery := (input.recovery.map fun key =>
          { key with confirmedAt := none }).or account.recovery
        identity := input.identity.or account.identity
        settingsKey := input.settingsKey.or account.settingsKey
        history := history
        grants := account.grants.mapEntries fun id grant =>
          (grantOf (input.workspaces.getD []) id).getD grant
        sessions := .empty })

/-- `resetAccountPassword`, its enrolment verified. -/
def resetAccountPassword
    (account : Account)
    (credentialVersion keyVersion : Nat)
    (recovery : RecoveryKey) : Answer × Account :=
  if account.credentialVersion ≠ credentialVersion then
    (.no, account)
  else
    (.ok,
      { account with
        credentialVersion := credentialVersion + 1
        keyVersion := keyVersion
        envelopeCredentialVersion := credentialVersion + 1
        recovery := account.recovery.map fun _ =>
          { recovery with confirmedAt := none }
        sessions := .empty })

/-- `initializeAccount`: what is missing is added, nothing is overwritten. -/
def initializeAccount
    (account : Account)
    (asking : Asking)
    (recovery : Option RecoveryKey)
    (identity : Option Identity)
    (personal : Id)
    (workspace : Option (Id × Grant))
    (now : Nat) : Answer × Account :=
  if sessionIsCurrent account asking now = false then
    (.no, account)
  else if identity.any fun row => !row.valid then
    (.failed, account)
  else
    (.ok,
      { account with
        recovery := account.recovery.or recovery
        identity := account.identity.or identity
        grants := match workspace with
          | none => account.grants
          | some (id, grant) =>
            if id = personal ∧ grant.keyVersion = account.keyVersion ∧
                account.grants.has id = false then
              account.grants.set id grant
            else
              account.grants })

def IDENTITY_HISTORY_LIMIT : Nat := 1000

/-- The history row an identity leaves to the one that succeeds it. -/
def Identity.replacedBy
    (current : Identity)
    (next : IdentityV2)
    (signature : Bytes)
    (consent : Option Bytes) : Replaced :=
  { toIdentity := current
    replacedByKeyVersion := next.keyVersion
    newEncryptionPublicKey := next.encryptionPublicKey
    newSigningPublicKey := next.signingPublicKey
    newKemPublicKey := next.kem.publicKey
    newMlDsaPublicKey := some next.mlDsa.publicKey
    successionSignature := signature
    successionConsent := consent }

/-- The succession a history row keeps, where both sides have ML-DSA keys. -/
def Replaced.link (userId : String) (row : Replaced) :
    Option SuccessionStatement := do
  let mlDsa ← row.mlDsa
  let newMlDsa ← row.newMlDsaPublicKey
  some
    { userId := userId
      oldKeyVersion := row.keyVersion
      newKeyVersion := row.replacedByKeyVersion
      oldEncryptionPublicKey := row.encryptionPublicKey
      oldSigningPublicKey := row.signingPublicKey
      oldMlDsaPublicKey := mlDsa.publicKey
      newEncryptionPublicKey := row.newEncryptionPublicKey
      newSigningPublicKey := row.newSigningPublicKey
      newMlDsaPublicKey := newMlDsa
      newKemPublicKey := row.newKemPublicKey }

/-- `succeedIdentity`. -/
def succeedIdentity
    (P : Primitives)
    (account : Account)
    (asking : Asking)
    (next : IdentityV2)
    (signature : Bytes)
    (consent : Option Bytes)
    (now : Nat) : Answer × Account :=
  if sessionIsCurrent account asking now = false then
    (.session, account)
  else
    match account.identity with
    | none => (.noIdentity, account)
    | some current =>
      let row := current.replacedBy next signature consent
      match row.link account.userId with
      | none => (.notUpgraded, account)
      | some link =>
        if next.keyVersion ≠ current.keyVersion + 1 then
          (.stale, account)
        else if IDENTITY_HISTORY_LIMIT ≤ account.history.length then
          (.historyFull, account)
        else if next.encryptionPublicKey = current.encryptionPublicKey ∨
            next.signingPublicKey = current.signingPublicKey ∨
            next.mlDsa.publicKey = link.oldMlDsaPublicKey ∨
            (current.kem.any fun kem =>
              next.kem.publicKey = kem.publicKey) then
          (.unchanged, account)
        else if P.verifyHybrid (successionStatement P link) signature
            { signingPublicKey := link.oldSigningPublicKey
              mlDsaPublicKey := link.oldMlDsaPublicKey } = false ∨
            (consent.any fun given =>
              !successionConsentHolds P link given) then
          (.badSignature, account)
        else if row.valid = false ∨ next.row.valid = false ∨
            (account.history.any fun other =>
              other.keyVersion = current.keyVersion) then
          (.failed, account)
        else
          (.replaced next.keyVersion,
            { account with
              history := account.history ++ [row]
              identity := some next.row })

/-- `backfillSuccessionConsent`: a consent is stored once, and never replaced. -/
def backfillSuccessionConsent
    (P : Primitives)
    (account : Account)
    (asking : Asking)
    (oldKeyVersion : Nat)
    (consent : Bytes)
    (now : Nat) : Answer × Account :=
  if sessionIsCurrent account asking now = false then
    (.session, account)
  else
    match account.history.find? fun row =>
        row.keyVersion = oldKeyVersion with
    | none => (.noLink, account)
    | some row =>
      match row.link account.userId with
      | none => (.notUpgraded, account)
      | some link =>
        if successionConsentHolds P link consent = false then
          (.badSignature, account)
        else
          (.stored row.successionConsent.isNone,
            { account with
              history := account.history.map fun other =>
                if other.keyVersion = oldKeyVersion ∧
                    other.successionConsent = none then
                  { other with successionConsent := some consent }
                else
                  other })

/-- Whether an upgrade keeps every key and wrapping of an identity. -/
def upgrades (current : Identity) (next : IdentityV2) : Bool :=
  next.toIdentityCommon = current.toIdentityCommon &&
    current.kem.all fun kem => next.kem = kem

/-- `upgradeIdentity`. -/
def upgradeIdentity
    (account : Account)
    (asking : Asking)
    (next : IdentityV2)
    (now : Nat) : Answer × Account :=
  if sessionIsCurrent account asking now = false then
    (.session, account)
  else
    match account.identity with
    | none => (.noIdentity, account)
    | some current =>
      if current.version = 2 then
        (.stale, account)
      else if upgrades current next = false then
        (.mismatch, account)
      else if next.row.valid = false then
        (.failed, account)
      else
        (.ok, { account with identity := some next.row })

/-- One write of an account's rows. -/
inductive Op where
  | createSession (input : SignIn) (now : Nat)
  /-- The browser signed in to another account, or its session was swept. -/
  | endSession (tokenHash : Bytes)
  | touchSession (tokenHash : Bytes) (lifetime : Lifetime) (now : Nat)
  | signOutDevice (tokenHash : Bytes) (now : Nat)
  | registerDevice
      (tokenHash : Bytes)
      (kind : DeviceKind)
      (signingPublicKey : Option Bytes)
      (now : Nat)
  | revokeDevice (deviceId : Id) (tokenHash : Bytes) (now : Nat)
  | revokeOtherDevices (tokenHash : Bytes) (now : Nat)
  | cleanupExpired (ended : Bytes → Bool) (picked : Id → Bool) (now : Nat)
  | setUserSuspended (suspended : Bool) (now : Nat)
  | changeAccountSecurity (input : SecurityChange) (now : Nat)
  | resetAccountPassword
      (credentialVersion keyVersion : Nat)
      (recovery : RecoveryKey)
  | initializeAccount
      (asking : Asking)
      (recovery : Option RecoveryKey)
      (identity : Option Identity)
      (personal : Id)
      (workspace : Option (Id × Grant))
      (now : Nat)
  | succeedIdentity
      (asking : Asking)
      (next : IdentityV2)
      (signature : Bytes)
      (consent : Option Bytes)
      (now : Nat)
  | backfillSuccessionConsent
      (asking : Asking)
      (oldKeyVersion : Nat)
      (consent : Bytes)
      (now : Nat)
  | upgradeIdentity (asking : Asking) (next : IdentityV2) (now : Nat)
  /-- `putSettingsKey`: stored once. -/
  | putSettingsKey (key : SettingsKey)
  /-- What groups and folders grant the account, and take back. -/
  | settleGrants (grants : OrderedMap Id Grant)

/-- What a write answers, and the rows it leaves. -/
def answer (P : Primitives) (account : Account) : Op → Answer × Account
  | .createSession input now => createSession P account input now
  | .endSession tokenHash => (.ok, account.endSession tokenHash)
  | .touchSession tokenHash lifetime now =>
    (.ok, touchSession account tokenHash lifetime now)
  | .signOutDevice tokenHash now => signOutDevice account tokenHash now
  | .registerDevice tokenHash kind signingPublicKey now =>
    registerDevice account tokenHash kind signingPublicKey now
  | .revokeDevice deviceId tokenHash now =>
    revokeDevice account deviceId tokenHash now
  | .revokeOtherDevices tokenHash now =>
    revokeOtherDevices account tokenHash now
  | .cleanupExpired ended picked now =>
    (.ok, cleanupExpired account ended picked now)
  | .setUserSuspended suspended now =>
    (.ok, setUserSuspended account suspended now)
  | .changeAccountSecurity input now => changeAccountSecurity account input now
  | .resetAccountPassword credentialVersion keyVersion recovery =>
    resetAccountPassword account credentialVersion keyVersion recovery
  | .initializeAccount asking recovery identity personal workspace now =>
    initializeAccount account asking recovery identity personal workspace now
  | .succeedIdentity asking next signature consent now =>
    succeedIdentity P account asking next signature consent now
  | .backfillSuccessionConsent asking oldKeyVersion consent now =>
    backfillSuccessionConsent P account asking oldKeyVersion consent now
  | .upgradeIdentity asking next now =>
    upgradeIdentity account asking next now
  | .putSettingsKey key =>
    (if account.settingsKey.isSome then .no else .ok,
      { account with settingsKey := account.settingsKey.or (some key) })
  | .settleGrants grants => (.ok, { account with grants := grants })

/-- The rows after a write. -/
def step (P : Primitives) (account : Account) (op : Op) : Account :=
  (answer P account op).2

/-- An account as it is registered: its identity, and nothing that follows. -/
structure Registered (account : Account) : Prop where
  history : account.history = []
  sessions : account.sessions = .empty
  notSuspended : account.suspendedAt = none
  envelope : account.envelopeCredentialVersion = account.credentialVersion
  identity : ∀ row, account.identity = some row → row.valid = true

/-- A toy account, as registered with an identity or none. -/
def toyAccount (identity : Option Identity) : Account where
  userId := "user"
  createdAt := 0
  suspendedAt := none
  credentialVersion := 1
  keyVersion := 1
  envelopeCredentialVersion := 1
  recovery := none
  identity := identity
  history := []
  settingsKey := none
  grants := .empty
  devices := .empty
  sessions := .empty

/-- A toy sign-in on a new device. -/
def toySignIn (token : UInt8) (newDeviceId : Id) : SignIn where
  credentialVersion := 1
  tokenHash := [token]
  previousTokenHash := none
  expiresAt := 100
  device := none
  newDeviceId := newDeviceId

end Auth

end HushOS
