import HushOS.Acceptance.Toy
import HushOS.Auth.Changes

namespace HushOS

open Toolkit List

namespace Auth

/-!
# The chain a contact is served

Whoever pinned an account's keys asks for the successions since.  The rows of
the history lead from each identity to the next and last to the current one, so
the links served from the pin's version verify, whatever the account did since.
-/

/-- The public keys of an identity, and its version. -/
structure PublicKeys where
  keyVersion : Nat
  encryptionPublicKey : Bytes
  signingPublicKey : Bytes
  kemPublicKey : Option Bytes
  mlDsaPublicKey : Option Bytes
  deriving DecidableEq

/-- What an identity shows. -/
def Identity.public (row : Identity) : PublicKeys where
  keyVersion := row.keyVersion
  encryptionPublicKey := row.encryptionPublicKey
  signingPublicKey := row.signingPublicKey
  kemPublicKey := row.kem.map Kem.publicKey
  mlDsaPublicKey := row.mlDsa.map MlDsa.publicKey

/-- What a history row says it was replaced by. -/
def Replaced.target (row : Replaced) : PublicKeys where
  keyVersion := row.replacedByKeyVersion
  encryptionPublicKey := row.newEncryptionPublicKey
  signingPublicKey := row.newSigningPublicKey
  kemPublicKey := some row.newKemPublicKey
  mlDsaPublicKey := row.newMlDsaPublicKey

/-- A link as it is served, its bytes in base64url. -/
def SuccessionStatement.encoded
    (link : SuccessionStatement)
    (signature : Bytes)
    (consent : Option Bytes) : SuccessionLink where
  oldKeyVersion := link.oldKeyVersion
  newKeyVersion := link.newKeyVersion
  oldEncryptionPublicKey := Base64url.encode link.oldEncryptionPublicKey
  oldSigningPublicKey := Base64url.encode link.oldSigningPublicKey
  oldMlDsaPublicKey := Base64url.encode link.oldMlDsaPublicKey
  newEncryptionPublicKey := Base64url.encode link.newEncryptionPublicKey
  newSigningPublicKey := Base64url.encode link.newSigningPublicKey
  newMlDsaPublicKey := Base64url.encode link.newMlDsaPublicKey
  newKemPublicKey := Base64url.encode link.newKemPublicKey
  signature := Base64url.encode signature
  consent := consent.map Base64url.encode

/-- `successionChain`: the history from a key version on, oldest first. -/
def successionChain (account : Account) (from_ : Nat) : List Replaced :=
  (account.history.filter fun row => from_ ≤ row.keyVersion).mergeSort
    fun first second => first.keyVersion ≤ second.keyVersion

/-- `contactSuccession`: the links of version 2 identities. -/
def contactSuccession (account : Account) (from_ : Nat) : List SuccessionLink :=
  (successionChain account from_).filterMap fun row =>
    (row.link account.userId).map fun link =>
      link.encoded row.successionSignature row.successionConsent

/-- The keys a contact was pinned with. -/
structure PinnedKeys where
  keyVersion : Option Int
  encryptionPublicKey : String
  signingPublicKey : String
  mlDsaPublicKeyHash : String

/-- The keys a server serves for a contact. -/
structure ServedKeys where
  keyVersion : Int
  encryptionPublicKey : String
  signingPublicKey : String
  mlDsaPublicKey : String
  kemPublicKey : String

/-- SHA-256 of an ML-DSA public key's text in hexadecimal, none where it is not one. -/
def mlDsaDigestOf (P : Primitives) (publicKey : String) : Option String :=
  match decode publicKey ML_DSA_PUBLIC_KEY_BYTES with
  | .ok bytes => some (P.keyDigest bytes)
  | .error _ => none

/-- Where a walk along links stands. -/
structure Standing where
  keyVersion : Int
  encryptionPublicKey : String
  signingPublicKey : String
  mlDsaPublicKey : String
  kemPublicKey : Option String

/-- Whether each link leaves from where the one before it led, to what is served. -/
def walkChain
    (P : Primitives)
    (userId : String)
    (served : ServedKeys) :
    Standing → List SuccessionLink → Bool
  | place, [] =>
    place.keyVersion ≤ served.keyVersion &&
      place.encryptionPublicKey = served.encryptionPublicKey &&
      place.signingPublicKey = served.signingPublicKey &&
      place.mlDsaPublicKey = served.mlDsaPublicKey &&
      place.kemPublicKey = some served.kemPublicKey
  | place, link :: rest =>
    place.keyVersion ≤ link.oldKeyVersion &&
      link.oldEncryptionPublicKey = place.encryptionPublicKey &&
      link.oldSigningPublicKey = place.signingPublicKey &&
      link.oldMlDsaPublicKey = place.mlDsaPublicKey &&
      -- The old keys are those the walk stands at, which is who must sign.
      Identities.verifySuccessionLink P userId link &&
      walkChain P userId served
        { keyVersion := link.newKeyVersion
          encryptionPublicKey := link.newEncryptionPublicKey
          signingPublicKey := link.newSigningPublicKey
          mlDsaPublicKey := link.newMlDsaPublicKey
          kemPublicKey := some link.newKemPublicKey }
        rest

/-- `verifySuccessionChain`: the links from the first that leaves the pin. -/
def verifySuccessionChain
    (P : Primitives)
    (userId : String)
    (pinned : PinnedKeys)
    (served : ServedKeys)
    (links : List SuccessionLink) : Bool :=
  match links.dropWhile fun link =>
      !(link.oldEncryptionPublicKey = pinned.encryptionPublicKey &&
        link.oldSigningPublicKey = pinned.signingPublicKey &&
        mlDsaDigestOf P link.oldMlDsaPublicKey =
          some pinned.mlDsaPublicKeyHash) with
  | [] => false
  | first :: rest =>
    walkChain P userId served
      { keyVersion := pinned.keyVersion.getD 0
        encryptionPublicKey := pinned.encryptionPublicKey
        signingPublicKey := pinned.signingPublicKey
        mlDsaPublicKey := first.oldMlDsaPublicKey
        kemPublicKey := none }
      (first :: rest)

/-- The pin of an identity with ML-DSA keys, at its version. -/
def Identity.pinned (P : Primitives) (row : Identity) (mlDsa : MlDsa) :
    PinnedKeys where
  keyVersion := some row.keyVersion
  encryptionPublicKey := Base64url.encode row.encryptionPublicKey
  signingPublicKey := Base64url.encode row.signingPublicKey
  mlDsaPublicKeyHash := P.keyDigest mlDsa.publicKey

/-- What is served of an identity of version 2. -/
def Identity.served (row : Identity) (kem : Kem) (mlDsa : MlDsa) :
    ServedKeys where
  keyVersion := row.keyVersion
  encryptionPublicKey := Base64url.encode row.encryptionPublicKey
  signingPublicKey := Base64url.encode row.signingPublicKey
  mlDsaPublicKey := Base64url.encode mlDsa.publicKey
  kemPublicKey := Base64url.encode kem.publicKey

variable {P : Primitives}

/-- A history row as it was checked: its lengths, and its signature. -/
structure Replaced.Holds (P : Primitives) (userId : String) (row : Replaced) :
    Prop where
  valid : row.valid = true
  signed : ∃ link, row.link userId = some link ∧
    P.verifyHybrid (successionStatement P link) row.successionSignature
      { signingPublicKey := link.oldSigningPublicKey
        mlDsaPublicKey := link.oldMlDsaPublicKey } = true

/-- Rows that lead from one identity to the next, and last to the keys given. -/
def Leads (P : Primitives) (userId : String) :
    List Replaced → PublicKeys → Prop
  | [], _ => True
  | row :: rest, last =>
    row.Holds P userId ∧
      row.target = (rest.head?.map fun next =>
        next.toIdentity.public).getD last ∧
      Leads P userId rest last

/-- What holds of an account's identity and its history in every run. -/
structure Chained (P : Primitives) (account : Account) : Prop where
  none : account.identity = none → account.history = []
  some_ : ∀ row, account.identity = some row →
    row.valid = true ∧ Leads P account.userId account.history row.public

theorem Leads.append
    {userId : String}
    {rows : List Replaced}
    {row : Replaced}
    (leads : Leads P userId rows row.toIdentity.public)
    (holds : row.Holds P userId) :
    Leads P userId (rows ++ [row]) row.target := by
  induction rows with
  | nil =>
    exact ⟨holds, rfl, trivial⟩
  | cons first rest inductionHypothesis =>
    obtain ⟨firstHolds, target, others⟩ := leads
    refine ⟨firstHolds, ?_, inductionHypothesis others⟩
    cases rest with
    | nil => exact target
    | cons next more => exact target

/-- Rows changed without their target or keys still lead on. -/
theorem Leads.map
    {userId : String}
    {rows : List Replaced}
    {last : PublicKeys}
    (leads : Leads P userId rows last)
    {change : Replaced → Replaced}
    (holds : ∀ row ∈ rows, row.Holds P userId → (change row).Holds P userId)
    (target : ∀ row ∈ rows, (change row).target = row.target)
    (shows : ∀ row ∈ rows,
      (change row).toIdentity.public = row.toIdentity.public) :
    Leads P userId (rows.map change) last := by
  induction rows with
  | nil =>
    trivial
  | cons first rest inductionHypothesis =>
    obtain ⟨firstHolds, leadsOn, others⟩ := leads
    refine ⟨holds first (mem_cons_self ..) firstHolds, ?_,
      inductionHypothesis others
        (fun row member => holds row (mem_cons_of_mem _ member))
        (fun row member => target row (mem_cons_of_mem _ member))
        (fun row member => shows row (mem_cons_of_mem _ member))⟩
    rw [target first (mem_cons_self ..), leadsOn]
    cases rest with
    | nil => rfl
    | cons next more =>
      exact (shows next (by simp)).symm

variable {userId : String} {last : PublicKeys}

theorem Leads.mlDsa
    {rows : List Replaced}
    (leads : Leads P userId rows last)
    (some_ : rows ≠ []) :
    ∃ key, last.mlDsaPublicKey = some key := by
  induction rows with
  | nil =>
    exact absurd rfl some_
  | cons first rest inductionHypothesis =>
    obtain ⟨holds, target, others⟩ := leads
    cases rest with
    | cons next more =>
      exact inductionHypothesis others (cons_ne_nil next more)
    | nil =>
      obtain ⟨link, isLink, _⟩ := holds.signed
      simp only [Replaced.link, Option.bind_eq_bind,
        Option.bind_eq_some_iff] at isLink
      obtain ⟨_, _, key, isKey, _⟩ := isLink
      refine ⟨key, ?_⟩
      rw [← isKey]
      exact (congrArg PublicKeys.mlDsaPublicKey target).symm

/-- What one write may do to an account's identity and its history. -/
inductive Moves (P : Primitives) (before after : Account) : Prop
  | kept
      (identity : after.identity = before.identity)
      (history : after.history = before.history) :
      Moves P before after
  /-- Wrapped anew, consented to, added or upgraded: what is shown stays. -/
  | shown
      (change : Replaced → Replaced)
      (next : Identity)
      (identity : after.identity = some next)
      (history : after.history = before.history.map change)
      (valid : next.valid = true)
      (shows : ∀ row, before.identity = some row →
        next.public = row.public ∨ row.mlDsa = none)
      (holds : ∀ row ∈ before.history, row.Holds P before.userId →
        (change row).Holds P before.userId)
      (target : ∀ row, (change row).target = row.target)
      (same : ∀ row,
        (change row).toIdentity.public = row.toIdentity.public) :
      Moves P before after
  | succeeded
      (row : Replaced)
      (next : Identity)
      (current : before.identity = some row.toIdentity)
      (identity : after.identity = some next)
      (history : after.history = before.history ++ [row])
      (valid : next.valid = true)
      (target : row.target = next.public)
      (holds : row.Holds P before.userId) :
      Moves P before after

theorem public_rewrapped (row wrap : Identity) :
    (row.rewrapped wrap).public = row.public := by
  cases kem : row.kem <;> cases mlDsa : row.mlDsa <;>
    simp [Identity.rewrapped, Identity.public, kem, mlDsa]

/-- What a change of the account's security leaves of a history row. -/
def rewrapEach (wraps : List Identity) (row : Replaced) : Replaced :=
  match wrapOf wraps row with
  | some wrap => { row with toIdentity := row.toIdentity.rewrapped wrap }
  | none => row

theorem rewrapEach_shows (wraps : List Identity) (row : Replaced) :
    (rewrapEach wraps row).target = row.target ∧
      (rewrapEach wraps row).toIdentity.public = row.toIdentity.public ∧
      ∀ userId, (rewrapEach wraps row).link userId = row.link userId := by
  unfold rewrapEach
  split
  · next wrap _ =>
      refine ⟨rfl, public_rewrapped row.toIdentity wrap, fun userId => ?_⟩
      cases mlDsa : row.mlDsa <;>
        simp [Replaced.link, Identity.rewrapped, mlDsa]
  · exact ⟨rfl, rfl, fun _ => rfl⟩

theorem Replaced.Holds.rewrapEach
    {userId : String}
    {row : Replaced}
    (holds : row.Holds P userId)
    {wraps : List Identity}
    (valid : (rewrapEach wraps row).valid = true) :
    (Auth.rewrapEach wraps row).Holds P userId := by
  obtain ⟨link, isLink, signed⟩ := holds.signed
  refine ⟨valid, link, ?_, ?_⟩
  · rw [(rewrapEach_shows wraps row).2.2, isLink]
  · have same : (Auth.rewrapEach wraps row).successionSignature =
        row.successionSignature := by
      unfold Auth.rewrapEach
      split <;> rfl
    rwa [same]

theorem public_of_same
    {first second : Identity}
    (same : samePublicKeys first second = true)
    (version : second.keyVersion = first.keyVersion) :
    second.public = first.public := by
  simp only [samePublicKeys, Bool.and_eq_true, decide_eq_true_eq] at same
  obtain ⟨⟨⟨⟨encryption, signing⟩, kem⟩, mlDsa⟩, _⟩ := same
  simp only [Identity.public, encryption, signing, kem, mlDsa, version]

theorem mlDsa_of_version
    {row : Identity}
    (version : row.version ≠ 2) :
    row.mlDsa = none := by
  cases mlDsa : row.mlDsa with
  | none => rfl
  | some key => exact absurd (by simp [Identity.version, mlDsa]) version

/-- A permitted change keeps the identity or adds its first ML-DSA key. -/
theorem identity_of_mayChange
    {account : Account}
    {input : SecurityChange}
    {now : Nat}
    (may : mayChange account input now = true) :
    ∃ row next, account.identity = some row ∧
      input.identity.or account.identity = some next ∧
      (input.identity = some next ∨ next = row) ∧
      (next.public = row.public ∨ row.mlDsa = none) := by
  simp only [mayChange, Bool.and_eq_true] at may
  obtain ⟨⟨⟨⟨⟨_, found⟩, _⟩, _⟩, _⟩, rest⟩ := may
  obtain ⟨row, isRow⟩ := Option.isSome_iff_exists.mp found
  by_cases rotates : input.action = .masterKey
  · rw [if_pos rotates] at rest
    simp only [rotatesAll, Bool.and_eq_true] at rest
    obtain ⟨⟨⟨⟨⟨identity, _⟩, _⟩, _⟩, _⟩, _⟩ := rest
    rw [isRow] at identity
    cases given : input.identity with
    | none => simp [given] at identity
    | some next =>
      simp only [given, Bool.and_eq_true, Bool.or_eq_true,
        decide_eq_true_eq] at identity
      obtain ⟨⟨_, versions⟩, same⟩ := identity
      refine ⟨row, next, isRow, rfl, .inl rfl, ?_⟩
      rcases versions with version | ⟨⟨one, _⟩, _⟩
      · exact .inl (public_of_same same version)
      · exact .inr (mlDsa_of_version (by omega))
  · rw [if_neg rotates] at rest
    simp only [Bool.and_eq_true, Option.isNone_iff_eq_none] at rest
    obtain ⟨⟨⟨given, _⟩, _⟩, _⟩ := rest
    exact ⟨row, row, isRow, by rw [given, isRow]; rfl, .inr rfl,
      .inl rfl⟩

section Writes

variable {account : Account}

/-- A change of the account's secrets moves the identity as allowed. -/
theorem Chained.changeAccountSecurity
    (chained : Chained P account)
    (input : SecurityChange)
    (now : Nat) :
    Moves P account (changeAccountSecurity account input now).2 := by
  unfold Auth.changeAccountSecurity
  dsimp only
  split
  · exact .kept rfl rfl
  · next may =>
      split
      · exact .kept rfl rfl
      · next valid =>
          simp only [Bool.not_eq_false] at may
          obtain ⟨row, next, isRow, isNext, given, shows⟩ :=
            identity_of_mayChange may
          simp only [Bool.or_eq_true, not_or, Option.any_eq_true,
            any_eq_true, Bool.not_eq_true', not_exists, not_and,
            Bool.not_eq_false] at valid
          refine .shown (rewrapEach (input.identityHistory.getD [])) next
            isNext rfl ?_ ?_ ?_ (fun row => (rewrapEach_shows _ row).1)
            fun row => (rewrapEach_shows _ row).2.1
          · rcases given with given | rfl
            · exact valid.1 next given
            · exact (chained.some_ _ isRow).1
          · intro other isOther
            rw [isRow, Option.some.injEq] at isOther
            exact isOther ▸ shows
          · exact fun row member holds => holds.rewrapEach
              (valid.2 _ (mem_map_of_mem member))

theorem moves_succeedIdentity
    (asking : Asking)
    (next : IdentityV2)
    (signature : Bytes)
    (consent : Option Bytes)
    (now : Nat) :
    Moves P account
      (succeedIdentity P account asking next signature consent now).2 := by
  unfold succeedIdentity
  split
  · exact .kept rfl rfl
  · split
    · exact .kept rfl rfl
    · next current isCurrent =>
        dsimp only
        split
        · exact .kept rfl rfl
        · next link isLink =>
            split_ifs with version full unchanged signed valid
            iterate 5 exact .kept rfl rfl
            simp only [not_or, Bool.not_eq_false] at signed valid
            exact .succeeded (current.replacedBy next signature consent)
              next.row isCurrent rfl rfl valid.2.1 rfl
              ⟨valid.1, link, isLink, signed.1⟩

/-- A consent filled in later changes no target. -/
theorem Chained.backfillSuccessionConsent
    (chained : Chained P account)
    (asking : Asking)
    (oldKeyVersion : Nat)
    (consent : Bytes)
    (now : Nat) :
    Moves P account
      (backfillSuccessionConsent P account asking oldKeyVersion consent
        now).2 := by
  unfold Auth.backfillSuccessionConsent
  split
  · exact .kept rfl rfl
  · split
    · exact .kept rfl rfl
    · next row found =>
        split
        · exact .kept rfl rfl
        · split
          · exact .kept rfl rfl
          · next consents =>
              cases isIdentity : account.identity with
              | none =>
                have empty := chained.none isIdentity
                rw [empty] at found
                nomatch found
              | some identity =>
                refine .shown _ identity rfl rfl
                  (chained.some_ _ isIdentity).1 ?_ ?_ ?_ ?_
                · rintro other isOther
                  rw [isIdentity, Option.some.injEq] at isOther
                  exact .inl (isOther ▸ rfl)
                · intro other _ holds
                  split
                  · obtain ⟨of, isOf, signed⟩ := holds.signed
                    refine ⟨?_, of, isOf, signed⟩
                    have some_ : other.mlDsa.isSome = true := by
                      cases mlDsa : other.mlDsa with
                      | some key => rfl
                      | none => simp [Replaced.link, mlDsa] at isOf
                    have length : consent.length =
                        Identities.SUCCESSION_CONSENT_BYTES := by
                      simp only [successionConsentHolds, Bool.not_eq_false,
                        Bool.and_eq_true, decide_eq_true_eq] at consents
                      exact consents.1.1
                    have valid := holds.valid
                    simp only [Replaced.valid, Bool.and_eq_true] at valid ⊢
                    exact ⟨valid.1, by simp [some_, length]⟩
                  · exact holds
                · intro other
                  split <;> rfl
                · intro other
                  split <;> rfl

theorem moves_upgradeIdentity
    (asking : Asking)
    (next : IdentityV2)
    (now : Nat) :
    Moves P account (upgradeIdentity account asking next now).2 := by
  unfold upgradeIdentity
  split
  · exact .kept rfl rfl
  · split
    · exact .kept rfl rfl
    · next current isCurrent =>
        split_ifs with version upgrades valid
        iterate 3 exact .kept rfl rfl
        refine .shown id next.row rfl (map_id _).symm
          (by simpa using valid) ?_ (fun _ _ holds => holds) (fun _ => rfl)
          fun _ => rfl
        intro row isRow
        rw [isCurrent, Option.some.injEq] at isRow
        exact .inr (isRow ▸ mlDsa_of_version version)

/-- Setting an account up moves the identity as allowed. -/
theorem moves_initializeAccount
    (asking : Asking)
    (recovery : Option RecoveryKey)
    (identity : Option Identity)
    (personal : Id)
    (workspace : Option (Id × Grant))
    (now : Nat) :
    Moves P account (initializeAccount account asking recovery identity
      personal workspace now).2 := by
  unfold initializeAccount
  split_ifs with session valid
  · exact .kept rfl rfl
  · exact .kept rfl rfl
  · cases held : account.identity with
    | some row =>
      exact .kept (by simp [held]) rfl
    | none =>
      cases given : identity with
      | none => exact .kept (by simp [held]) rfl
      | some row =>
        refine .shown id row (by simp) (map_id _).symm
          (by simpa [given] using valid) ?_ (fun _ _ holds => holds)
          (fun _ => rfl) fun _ => rfl
        intro other isOther
        rw [held] at isOther
        cases isOther

end Writes

/-- A write of the sessions leaves the identity and its history. -/
structure Aside (before after : Account) : Prop where
  identity : after.identity = before.identity
  history : after.history = before.history
  userId : after.userId = before.userId

theorem aside_refl (account : Account) : Aside account account :=
  ⟨rfl, rfl, rfl⟩

theorem aside_createSession (account : Account) (input : SignIn) (now : Nat) :
    Aside account (createSession P account input now).2 := by
  unfold createSession
  dsimp only
  split_ifs <;> exact ⟨rfl, rfl, rfl⟩

theorem aside_touchSession
    (account : Account)
    (tokenHash : Bytes)
    (lifetime : Lifetime)
    (now : Nat) :
    Aside account (touchSession account tokenHash lifetime now) := by
  unfold touchSession
  split
  · exact aside_refl account
  · split_ifs <;> exact ⟨rfl, rfl, rfl⟩

theorem aside_signOutDevice
    (account : Account)
    (tokenHash : Bytes)
    (now : Nat) :
    Aside account (signOutDevice account tokenHash now).2 := by
  unfold signOutDevice
  split
  · exact aside_refl account
  · split <;> exact ⟨rfl, rfl, rfl⟩

theorem aside_registerDevice
    (account : Account)
    (tokenHash : Bytes)
    (kind : DeviceKind)
    (signingPublicKey : Option Bytes)
    (now : Nat) :
    Aside account
      (registerDevice account tokenHash kind signingPublicKey now).2 := by
  unfold registerDevice
  split
  · exact aside_refl account
  · split
    · exact aside_refl account
    · split_ifs <;> exact ⟨rfl, rfl, rfl⟩

theorem aside_revokeDevice
    (account : Account)
    (deviceId : Id)
    (tokenHash : Bytes)
    (now : Nat) :
    Aside account (revokeDevice account deviceId tokenHash now).2 := by
  unfold revokeDevice
  split
  · exact aside_refl account
  · split_ifs <;> exact ⟨rfl, rfl, rfl⟩

theorem aside_revokeOtherDevices
    (account : Account)
    (tokenHash : Bytes)
    (now : Nat) :
    Aside account (revokeOtherDevices account tokenHash now).2 := by
  unfold revokeOtherDevices
  split <;> exact ⟨rfl, rfl, rfl⟩

theorem Aside.moves {before after : Account} (aside : Aside before after) :
    Moves P before after ∧ after.userId = before.userId :=
  ⟨.kept aside.identity aside.history, aside.userId⟩

/-- Every operation moves the identity as allowed and keeps the user. -/
theorem Chained.moves
    {account : Account}
    (chained : Chained P account)
    (op : Op) :
    Moves P account (step P account op) ∧
      (step P account op).userId = account.userId := by
  cases op with
  | createSession input now => exact (aside_createSession account input now).moves
  | endSession tokenHash => exact Aside.moves ⟨rfl, rfl, rfl⟩
  | touchSession tokenHash lifetime now =>
    exact (aside_touchSession account tokenHash lifetime now).moves
  | signOutDevice tokenHash now =>
    exact (aside_signOutDevice account tokenHash now).moves
  | registerDevice tokenHash kind signingPublicKey now =>
    exact (aside_registerDevice account tokenHash kind signingPublicKey
      now).moves
  | revokeDevice deviceId tokenHash now =>
    exact (aside_revokeDevice account deviceId tokenHash now).moves
  | revokeOtherDevices tokenHash now =>
    exact (aside_revokeOtherDevices account tokenHash now).moves
  | cleanupExpired ended picked now => exact Aside.moves ⟨rfl, rfl, rfl⟩
  | setUserSuspended suspended now =>
    cases suspended <;> exact Aside.moves ⟨rfl, rfl, rfl⟩
  | changeAccountSecurity input now =>
    refine ⟨chained.changeAccountSecurity input now, ?_⟩
    simp only [step, answer, Auth.changeAccountSecurity]
    split_ifs <;> rfl
  | resetAccountPassword credentialVersion keyVersion recovery =>
    refine Aside.moves ?_
    simp only [step, answer, resetAccountPassword]
    split_ifs <;> exact ⟨rfl, rfl, rfl⟩
  | initializeAccount asking recovery identity personal workspace now =>
    refine ⟨moves_initializeAccount asking recovery identity personal
      workspace now, ?_⟩
    simp only [step, answer, initializeAccount]
    split_ifs <;> rfl
  | succeedIdentity asking next signature consent now =>
    refine ⟨moves_succeedIdentity asking next signature consent now, ?_⟩
    simp only [step, answer, succeedIdentity]
    repeat' (first | rfl | split)
  | backfillSuccessionConsent asking oldKeyVersion consent now =>
    refine ⟨chained.backfillSuccessionConsent asking oldKeyVersion consent
      now, ?_⟩
    simp only [step, answer, Auth.backfillSuccessionConsent]
    repeat' (first | rfl | split)
  | upgradeIdentity asking next now =>
    refine ⟨moves_upgradeIdentity asking next now, ?_⟩
    simp only [step, answer, upgradeIdentity]
    repeat' (first | rfl | split)
  | putSettingsKey key => exact Aside.moves ⟨rfl, rfl, rfl⟩
  | settleGrants grants => exact Aside.moves ⟨rfl, rfl, rfl⟩

/-- Moves keep the rows chained. -/
theorem Chained.of_moves
    {before after : Account}
    (chained : Chained P before)
    (moves : Moves P before after)
    (userId : after.userId = before.userId) :
    Chained P after := by
  cases moves with
  | kept identity history =>
    refine ⟨fun none => history.trans (chained.none (identity ▸ none)),
      fun row isRow => ?_⟩
    rw [history, userId]
    exact chained.some_ row (identity ▸ isRow)
  | shown change next identity history valid shows holds target same =>
    refine ⟨fun none => absurd (none.symm.trans identity) (by simp),
      fun row isRow => ?_⟩
    obtain rfl : next = row := Option.some.inj (identity.symm.trans isRow)
    rw [history, userId]
    refine ⟨valid, ?_⟩
    cases held : before.identity with
    | none =>
      rw [chained.none held]
      trivial
    | some row =>
      have leads := (chained.some_ row held).2
      rcases shows row held with shown | none
      · rw [shown]
        exact leads.map holds (fun row _ => target row)
          fun row _ => same row
      · -- Without ML-DSA keys nothing was ever succeeded.
        have empty : before.history = [] := by
          by_contra some_
          obtain ⟨key, isKey⟩ := leads.mlDsa some_
          simp [Identity.public, none] at isKey
        rw [empty]
        trivial
  | succeeded row next current identity history valid target holds =>
    refine ⟨fun none => absurd (none.symm.trans identity) (by simp),
      fun other isOther => ?_⟩
    obtain rfl : next = other := Option.some.inj (identity.symm.trans isOther)
    rw [history, userId, ← target]
    exact ⟨valid, (chained.some_ _ current).2.append holds⟩

/-- Keys an account had: shown still, or those of a row of its history. -/
def Had (account : Account) (keys : PublicKeys) : Prop :=
  (∃ row, account.identity = some row ∧ row.public = keys) ∨
    ∃ earlier row later, account.history = earlier ++ row :: later ∧
      row.toIdentity.public = keys

/-- Keys an account once had stay among its rows. -/
theorem Had.of_moves
    {before after : Account}
    {keys : PublicKeys}
    (had : Had before keys)
    (mlDsa : keys.mlDsaPublicKey ≠ none)
    (moves : Moves P before after) :
    Had after keys := by
  cases moves with
  | kept identity history =>
    simpa only [Had, identity, history] using had
  | shown change next identity history valid shows holds target same =>
    rcases had with ⟨row, isRow, rfl⟩ | ⟨earlier, row, later, split_, rfl⟩
    · rcases shows row isRow with shown | none
      · exact .inl ⟨next, identity, shown⟩
      · exact absurd (by simp [Identity.public, none]) mlDsa
    · refine .inr ⟨earlier.map change, change row, later.map change, ?_,
        same row⟩
      rw [history, split_, map_append, map_cons]
  | succeeded row next current identity history valid target holds =>
    rcases had with ⟨other, isOther, rfl⟩ |
      ⟨earlier, other, later, split_, rfl⟩
    · rw [current, Option.some.injEq] at isOther
      exact .inr ⟨before.history, row, [], history, by rw [isOther]⟩
    · exact .inr ⟨earlier, other, later ++ [row], by
        rw [history, split_, append_assoc, cons_append], rfl⟩

theorem Chained.run
    {account : Account}
    (chained : Chained P account)
    (ops : List Op) :
    Chained P (Runs.run (step P) account ops) ∧
      (Runs.run (step P) account ops).userId = account.userId := by
  refine Runs.keeps_of_step (fun after => Chained P after ∧
    after.userId = account.userId) ?_ ops ⟨chained, rfl⟩
  rintro after op ⟨kept, userId⟩
  obtain ⟨moves, same⟩ := kept.moves op
  exact ⟨kept.of_moves moves same, same.trans userId⟩

theorem Had.run
    {account : Account}
    {keys : PublicKeys}
    (chained : Chained P account)
    (had : Had account keys)
    (mlDsa : keys.mlDsaPublicKey ≠ none)
    (ops : List Op) :
    Had (Runs.run (step P) account ops) keys := by
  refine (Runs.keeps_of_step (fun after => Chained P after ∧
    Had after keys) ?_ ops ⟨chained, had⟩).2
  rintro after op ⟨kept, has⟩
  obtain ⟨moves, same⟩ := kept.moves op
  exact ⟨kept.of_moves moves same, has.of_moves mlDsa moves⟩

theorem Registered.chained
    {account : Account}
    (registered : Registered account) :
    Chained P account where
  none _ := registered.history
  some_ row isRow :=
    ⟨registered.identity row isRow, registered.history ▸ trivial⟩

/-- The keys a walk stands at are these. -/
def Standing.shows (place : Standing) (keys : PublicKeys) : Prop :=
  place.keyVersion ≤ keys.keyVersion ∧
    place.encryptionPublicKey = Base64url.encode keys.encryptionPublicKey ∧
    place.signingPublicKey = Base64url.encode keys.signingPublicKey ∧
    keys.mlDsaPublicKey.map Base64url.encode = some place.mlDsaPublicKey

theorem decode_encoded
    {bytes : Bytes}
    {length : Nat}
    (sized : bytes.length = length)
    (positive : 0 < length) :
    decode (Base64url.encode bytes) length = .ok bytes := by
  subst sized
  exact Primitives.decode_encode (ne_nil_of_length_pos positive)

theorem key_encoded
    {bytes : Bytes}
    {length : Nat}
    (sized : bytes.length = length)
    (positive : 0 < length) :
    Identities.key (Base64url.encode bytes) length =
      .ok (Base64url.encode bytes) := by
  rw [Identities.key, decode_encoded sized positive]
  rfl

/-- The versions and lengths a stored link's fields have. -/
structure SuccessionStatement.Sized (link : SuccessionStatement) : Prop where
  positive : 0 < link.oldKeyVersion
  rises : link.oldKeyVersion < link.newKeyVersion
  below : link.newKeyVersion ≤ MAX_INTEGER
  oldEncryption : link.oldEncryptionPublicKey.length = 32
  oldSigning : link.oldSigningPublicKey.length = 32
  oldMlDsa : link.oldMlDsaPublicKey.length = ML_DSA_PUBLIC_KEY_BYTES
  newEncryption : link.newEncryptionPublicKey.length = 32
  newSigning : link.newSigningPublicKey.length = 32
  newMlDsa : link.newMlDsaPublicKey.length = ML_DSA_PUBLIC_KEY_BYTES
  newKem : link.newKemPublicKey.length = KEM_PUBLIC_KEY_BYTES

variable {row : Replaced} {link : SuccessionStatement}

theorem link_eq_some :
    row.link userId = some link ↔
      ∃ mlDsa newMlDsa, row.mlDsa = some mlDsa ∧
        row.newMlDsaPublicKey = some newMlDsa ∧
        { userId := userId
          oldKeyVersion := row.keyVersion
          newKeyVersion := row.replacedByKeyVersion
          oldEncryptionPublicKey := row.encryptionPublicKey
          oldSigningPublicKey := row.signingPublicKey
          oldMlDsaPublicKey := mlDsa.publicKey
          newEncryptionPublicKey := row.newEncryptionPublicKey
          newSigningPublicKey := row.newSigningPublicKey
          newMlDsaPublicKey := newMlDsa
          newKemPublicKey := row.newKemPublicKey : SuccessionStatement } =
            link := by
  simp [Replaced.link, Option.bind_eq_some_iff]

theorem sized_of_valid
    (valid : row.valid = true)
    (isLink : row.link userId = some link) :
    link.Sized ∧ row.successionSignature.length = HYBRID_SIGNATURE_BYTES := by
  obtain ⟨mlDsa, newMlDsa, isMlDsa, isNew, rfl⟩ := link_eq_some.mp isLink
  simp only [Replaced.valid, Identity.valid, isMlDsa, isNew, Option.isSome_some,
    Option.any_some, Option.all_some, Bool.and_eq_true, decide_eq_true_eq,
    ↓reduceIte] at valid
  obtain ⟨⟨⟨⟨⟨⟨⟨old, rises⟩, below⟩, newEncryption⟩, newSigning⟩, newKem⟩,
    newKey, signature⟩, _⟩ := valid
  obtain ⟨⟨⟨⟨⟨⟨⟨⟨⟨⟨positive, _⟩, _⟩, encryption⟩, _⟩, _⟩, signing⟩, _⟩, _⟩, _⟩,
    ⟨⟨⟨_, key⟩, _⟩, _⟩, _⟩ := old
  exact ⟨⟨positive, rises, below, encryption, signing, key, newEncryption,
    newSigning, newKey, newKem⟩, signature⟩

/-- An encoded link gives back the statement that was signed. -/
theorem statement_encoded
    (sized : link.Sized)
    (named : link.userId ≠ "")
    (signature : Bytes)
    (consent : Option Bytes) :
    Identities.successionStatement P link.userId
        (link.encoded signature consent) =
      .ok (successionStatement P link) := by
  have rises := sized.rises
  have below := sized.below
  have safe : (MAX_INTEGER : Int) < maxSafe := by decide
  have version : Identities.count
      (link.encoded signature consent).oldKeyVersion "key version" =
        .ok (link.oldKeyVersion : Int) := by
    have positive := sized.positive
    simp only [SuccessionStatement.encoded]
    rw [Identities.count, if_pos (by omega)]
  have next : refuseIf
      (maxSafe < (link.encoded signature consent).newKeyVersion ∨
        (link.encoded signature consent).newKeyVersion ≤ link.oldKeyVersion)
      (⟨"Invalid key version."⟩ : CryptoError) = .ok () := by
    refine refuseIf_eq_ok.mpr ?_
    simp only [SuccessionStatement.encoded]
    omega
  simp only [Identities.successionStatement, Identities.successionFields,
    version, next, ok_bind]
  simp only [SuccessionStatement.encoded, ok_bind, Identities.text, if_neg
    named, key_encoded sized.oldEncryption (by decide),
    key_encoded sized.oldSigning (by decide),
    key_encoded sized.oldMlDsa (by decide),
    key_encoded sized.newEncryption (by decide),
    key_encoded sized.newSigning (by decide),
    key_encoded sized.newMlDsa (by decide),
    decode_encoded sized.newKem (by decide)]
  rfl

/-- A stored row is served as a link that verifies. -/
theorem Replaced.Holds.verifies
    (holds : row.Holds P userId)
    (named : userId ≠ "") :
    ∃ link, row.link userId = some link ∧
      Identities.verifySuccessionLink P userId
        (link.encoded row.successionSignature row.successionConsent) =
          true := by
  obtain ⟨link, isLink, signed⟩ := holds.signed
  obtain ⟨sized, signature⟩ := sized_of_valid holds.valid isLink
  obtain rfl : link.userId = userId := by
    obtain ⟨_, _, _, _, rfl⟩ := link_eq_some.mp isLink
    rfl
  refine ⟨link, isLink, ?_⟩
  have under : Identities.under
      (Base64url.encode link.oldSigningPublicKey)
      (Base64url.encode link.oldMlDsaPublicKey) =
        .ok { signingPublicKey := link.oldSigningPublicKey
              mlDsaPublicKey := link.oldMlDsaPublicKey } := by
    rw [Identities.under, decode_encoded sized.oldSigning (by decide),
      decode_encoded sized.oldMlDsa (by decide)]
    rfl
  rw [Identities.verifySuccessionLink, statement_encoded sized named]
  simp only [SuccessionStatement.encoded, ok_bind,
    decode_encoded signature (by decide), under, Identities.answered, signed]

/-- The served rows walk from any of their places to the current keys. -/
theorem Leads.walks
    (named : userId ≠ "")
    {kem : Kem}
    {mlDsa : MlDsa}
    {current : Identity}
    (isKem : current.kem = some kem)
    (isMlDsa : current.mlDsa = some mlDsa)
    {rows : List Replaced}
    (leads : Leads P userId rows current.public)
    {place : Standing}
    (stands : place.shows ((rows.head?.map fun next =>
      next.toIdentity.public).getD current.public))
    (ends : rows = [] → place.kemPublicKey = some (Base64url.encode
      kem.publicKey)) :
    walkChain P userId (current.served kem mlDsa) place
      (rows.filterMap fun row => (row.link userId).map fun link =>
        link.encoded row.successionSignature row.successionConsent) = true := by
  induction rows generalizing place with
  | nil =>
    obtain ⟨version, encryption, signing, key⟩ := stands
    simp only [head?_nil, Option.map_none, Option.getD_none,
      Identity.public, isMlDsa, Option.map_some, Option.some.injEq]
      at version encryption signing key
    simp [walkChain, Identity.served, version, encryption, signing, ← key,
      ends rfl]
  | cons row rest inductionHypothesis =>
    obtain ⟨holds, target, others⟩ := leads
    obtain ⟨link, isLink, verifies⟩ := holds.verifies named
    obtain ⟨old, new, isOld, isNew, isFields⟩ := link_eq_some.mp isLink
    obtain ⟨version, encryption, signing, key⟩ := stands
    simp only [head?_cons, Option.map_some, Option.getD_some,
      Identity.public, isOld, Option.some.injEq]
      at version encryption signing key
    have reached : ({
        keyVersion := link.newKeyVersion
        encryptionPublicKey := Base64url.encode link.newEncryptionPublicKey
        signingPublicKey := Base64url.encode link.newSigningPublicKey
        mlDsaPublicKey := Base64url.encode link.newMlDsaPublicKey
        kemPublicKey := some (Base64url.encode link.newKemPublicKey) } :
          Standing).shows ((rest.head?.map fun next =>
            next.toIdentity.public).getD current.public) := by
      rw [← target]
      subst isFields
      simp [Standing.shows, Replaced.target, isNew]
    have further := inductionHypothesis others reached fun empty => by
      subst isFields
      rw [empty] at target
      have same := congrArg PublicKeys.kemPublicKey target
      simp only [Replaced.target, head?_nil, Option.map_none,
        Option.getD_none, Identity.public, isKem, Option.map_some,
        Option.some.injEq] at same
      rw [same]
    rw [filterMap_cons, isLink, Option.map_some, walkChain]
    subst isFields
    simp only [Bool.and_eq_true]
    refine ⟨⟨⟨⟨⟨?_, ?_⟩, ?_⟩, ?_⟩, verifies⟩, further⟩ <;>
      simp [SuccessionStatement.encoded, version, encryption, signing, key]

/-- The rows stand in the order of their key versions. -/
theorem Leads.sorted
    {userId : String}
    {rows : List Replaced}
    {last : PublicKeys}
    (leads : Leads P userId rows last) :
    rows.Pairwise fun first second => first.keyVersion < second.keyVersion := by
  induction rows with
  | nil =>
    exact .nil
  | cons row rest inductionHypothesis =>
    obtain ⟨holds, target, others⟩ := leads
    have sorted := inductionHypothesis others
    refine pairwise_cons.mpr ⟨fun later member => ?_, sorted⟩
    have rises : row.keyVersion < row.replacedByKeyVersion := by
      have valid := holds.valid
      simp only [Replaced.valid, Bool.and_eq_true, decide_eq_true_eq]
        at valid
      exact valid.1.1.1.1.1.1.2
    cases rest with
    | nil =>
      nomatch member
    | cons next more =>
      have step : row.replacedByKeyVersion = next.keyVersion :=
        congrArg PublicKeys.keyVersion target
      rcases mem_cons.mp member with rfl | further
      · omega
      · have := (pairwise_cons.mp sorted).1 later further
        omega

/-- The chain served from a version is the rows from it onwards. -/
theorem successionChain_eq
    {account : Account}
    (leads : Leads P account.userId account.history last)
    {earlier later : List Replaced}
    (split_ : account.history = earlier ++ row :: later) :
    successionChain account row.keyVersion = row :: later := by
  have sorted := leads.sorted
  rw [split_, pairwise_append] at sorted
  obtain ⟨_, onward, before⟩ := sorted
  have kept : account.history.filter
      (fun other => row.keyVersion ≤ other.keyVersion) = row :: later := by
    rw [split_, filter_append, filter_eq_nil_iff.mpr, nil_append,
      filter_eq_self]
    · intro other member
      rcases mem_cons.mp member with rfl | further
      · simp
      · have := (pairwise_cons.mp onward).1 other further
        simp only [decide_eq_true_eq]
        omega
    · intro other member
      have := before other member row (mem_cons_self ..)
      simp only [decide_eq_true_eq]
      omega
  rw [successionChain, kept]
  refine mergeSort_of_pairwise (onward.imp fun less => ?_)
  simp only [decide_eq_true_eq]
  omega

theorem Leads.of_append
    {earlier later : List Replaced}
    (leads : Leads P userId (earlier ++ later) last) :
    Leads P userId later last := by
  induction earlier with
  | nil => exact leads
  | cons first rest inductionHypothesis => exact inductionHypothesis leads.2.2

theorem keys_of_valid
    {row : Identity}
    (valid : row.valid = true)
    {key : Bytes}
    (mlDsa : row.public.mlDsaPublicKey = some key) :
    ∃ kem found, row.kem = some kem ∧ row.mlDsa = some found ∧
      found.publicKey = key ∧ key.length = ML_DSA_PUBLIC_KEY_BYTES := by
  obtain ⟨found, isFound, rfl⟩ := Option.map_eq_some_iff.mp mlDsa
  simp only [Identity.valid, isFound, Option.all_some, Bool.and_eq_true,
    decide_eq_true_eq] at valid
  obtain ⟨_, ⟨⟨⟨isKem, length⟩, _⟩, _⟩, _⟩ := valid
  obtain ⟨kem, isKem⟩ := Option.isSome_iff_exists.mp isKem
  exact ⟨kem, found, isKem, isFound, rfl, length⟩

/--
Whoever pinned an account's version 2 keys is led to its keys of any later
moment: the account still shows the pinned ones, or the links it is served
from the pin's version verify, each signed by the keys before it.
-/
theorem served_chain_verifies
    {account : Account}
    (registered : Registered account)
    (named : account.userId ≠ "")
    (before after : List Op)
    {pinned : Identity}
    {pinnedKey : MlDsa}
    (isPinned : (Runs.run (step P) account before).identity = some pinned)
    (hasKey : pinned.mlDsa = some pinnedKey) :
    ∃ current kem mlDsa,
      (Runs.run (step P) account (before ++ after)).identity = some current ∧
        current.kem = some kem ∧ current.mlDsa = some mlDsa ∧
          (current.public = pinned.public ∨
            verifySuccessionChain P account.userId
              (pinned.pinned P pinnedKey) (current.served kem mlDsa)
              (contactSuccession
                (Runs.run (step P) account (before ++ after))
                pinned.keyVersion) = true) := by
  obtain ⟨chained, sameUser⟩ := registered.chained.run before
  have shows : pinned.public.mlDsaPublicKey = some pinnedKey.publicKey := by
    simp [Identity.public, hasKey]
  have had := Had.run chained (.inl ⟨pinned, isPinned, rfl⟩)
    (by simp [shows]) after
  obtain ⟨later, stillUser⟩ := chained.run after
  rw [Runs.run_append]
  rw [sameUser] at stillUser
  generalize Runs.run (step P) (Runs.run (step P) account before) after =
    reached at had later stillUser
  rcases had with ⟨current, isCurrent, same⟩ |
    ⟨earlier, row, rest, split_, same⟩
  · obtain ⟨kem, mlDsa, isKem, isKey, _, _⟩ := keys_of_valid
      (later.some_ current isCurrent).1 (same ▸ shows)
    exact ⟨current, kem, mlDsa, isCurrent, isKem, isKey, .inl same⟩
  · cases isCurrent : reached.identity with
    | none =>
      have empty := later.none isCurrent
      simp [empty] at split_
    | some current =>
      obtain ⟨valid, leads⟩ := later.some_ current isCurrent
      obtain ⟨key, isKey⟩ := leads.mlDsa (by simp [split_])
      obtain ⟨kem, mlDsa, isKem, isMlDsa, _, _⟩ := keys_of_valid valid isKey
      refine ⟨current, kem, mlDsa, rfl, isKem, isMlDsa, .inr ?_⟩
      have version : row.keyVersion = pinned.keyVersion :=
        congrArg PublicKeys.keyVersion same
      have chain := successionChain_eq leads split_
      rw [stillUser, split_] at leads
      have onward := leads.of_append
      obtain ⟨link, isLink, _⟩ := onward.1.verifies named
      obtain ⟨old, new, isOld, isNew, isFields⟩ := link_eq_some.mp isLink
      have sized := (sized_of_valid onward.1.valid isLink).1
      have encryption : link.oldEncryptionPublicKey =
          pinned.encryptionPublicKey := by
        rw [← isFields]
        exact congrArg PublicKeys.encryptionPublicKey same
      have signing : link.oldSigningPublicKey = pinned.signingPublicKey := by
        rw [← isFields]
        exact congrArg PublicKeys.signingPublicKey same
      have mlDsaKey : link.oldMlDsaPublicKey = pinnedKey.publicKey := by
        rw [← isFields]
        have alike := congrArg PublicKeys.mlDsaPublicKey same
        rw [shows] at alike
        simpa [Identity.public, isOld] using alike
      have digest : mlDsaDigestOf P
          (Base64url.encode link.oldMlDsaPublicKey) =
            some (P.keyDigest pinnedKey.publicKey) := by
        rw [mlDsaDigestOf, decode_encoded sized.oldMlDsa (by decide),
          mlDsaKey]
      rw [contactSuccession, ← version, chain, stillUser, filterMap_cons,
        isLink, Option.map_some, verifySuccessionChain,
        dropWhile_cons_of_neg (by
          simp [SuccessionStatement.encoded, Identity.pinned, digest,
            encryption, signing])]
      have stands : ({
          keyVersion := (pinned.pinned P pinnedKey).keyVersion.getD 0
          encryptionPublicKey :=
            (pinned.pinned P pinnedKey).encryptionPublicKey
          signingPublicKey := (pinned.pinned P pinnedKey).signingPublicKey
          mlDsaPublicKey :=
            (link.encoded row.successionSignature
              row.successionConsent).oldMlDsaPublicKey
          kemPublicKey := none } : Standing).shows
            row.toIdentity.public := by
        rw [same]
        simp [Standing.shows, Identity.pinned, Identity.public, hasKey,
          SuccessionStatement.encoded, mlDsaKey]
      have walked := onward.walks named isKem isMlDsa stands
        fun empty => nomatch empty
      rwa [filterMap_cons, isLink, Option.map_some] at walked

/-- Toy keys of a number: a client's identity of version 2. -/
def toyIdentity (number : Nat) : IdentityV2 where
  keyVersion := number
  wrappingSalt := List.replicate 32 0
  encryptionPublicKey := List.replicate 32 (UInt8.ofNat number)
  encryptionPrivateKeyNonce := List.replicate 24 0
  encryptedEncryptionPrivateKey := List.replicate 48 0
  signingPublicKey := List.replicate 32 (UInt8.ofNat number)
  signingSeedNonce := List.replicate 24 0
  encryptedSigningSeed := List.replicate 48 0
  kem :=
    { publicKey := List.replicate KEM_PUBLIC_KEY_BYTES (UInt8.ofNat number)
      seedNonce := List.replicate 24 0
      encryptedSeed := List.replicate 80 0 }
  mlDsa :=
    { publicKey := List.replicate ML_DSA_PUBLIC_KEY_BYTES (UInt8.ofNat number)
      seedNonce := List.replicate 24 0
      encryptedSeed := List.replicate 48 0
      keysSignature := List.replicate HYBRID_SIGNATURE_BYTES 0 }

/-- A toy account signs in and replaces its keys. -/
def toySuccession : List Op :=
  [.createSession (toySignIn 7 "device") 5,
    .succeedIdentity ⟨1, [7]⟩ (toyIdentity 2)
      (List.replicate HYBRID_SIGNATURE_BYTES 0) none 6]

/-- One succession of a toy account, served and verified from the start. -/
theorem served_chain_verifies_toy :
    ∃ current kem mlDsa,
      (Runs.run (step (toyWith fun _ => 0))
        (toyAccount (some (toyIdentity 1).row))
        ([] ++ toySuccession)).identity = some current ∧
        current.kem = some kem ∧ current.mlDsa = some mlDsa ∧
          (current.public = (toyIdentity 1).row.public ∨
            verifySuccessionChain (toyWith fun _ => 0) "user"
              ((toyIdentity 1).row.pinned (toyWith fun _ => 0)
                (toyIdentity 1).mlDsa)
              (current.served kem mlDsa)
              (contactSuccession
                (Runs.run (step (toyWith fun _ => 0))
                  (toyAccount (some (toyIdentity 1).row))
                  ([] ++ toySuccession))
                1) = true) := by
  refine served_chain_verifies ⟨rfl, rfl, rfl, rfl, ?_⟩ ?_ [] toySuccession
    rfl rfl
  · intro row found
    obtain rfl : (toyIdentity 1).row = row := Option.some.inj found
    simp [Identity.valid, IdentityV2.row, toyIdentity, MAX_INTEGER]
  · simp [toyAccount]

end Auth

end HushOS
