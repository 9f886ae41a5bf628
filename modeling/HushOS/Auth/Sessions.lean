import HushOS.Acceptance.Toy
import HushOS.Auth.Changes

namespace HushOS

open Toolkit List OrderedMap

namespace Auth

/-!
# Sessions that stand

Whatever an account does, a session in its table is under the current
credential, on a device that is approved and not revoked, and the only one
there.  So what a session's lookup checks beside its deadlines never decides,
and a device once removed is never answered for again.
-/

/-- A session's device is there, approved and not revoked. -/
def OnDevice (account : Account) (session : Session) : Prop :=
  ∃ id device, session.deviceId = some id ∧
    account.devices.get? id = some device ∧ device.live = true

/-- What holds of an account's sessions in every run. -/
structure Stands (account : Account) : Prop where
  envelope : account.envelopeCredentialVersion = account.credentialVersion
  current : ∀ {token session}, account.sessions.get? token = some session →
    session.credentialVersion = account.credentialVersion ∧
      account.suspendedAt = none
  device : ∀ {token session}, account.sessions.get? token = some session →
    OnDevice account session
  one : ∀ {token other session second},
    account.sessions.get? token = some session →
      account.sessions.get? other = some second →
        session.deviceId = second.deviceId → token = other

variable {P : Primitives} {account : Account}

theorem stands_of_empty
    (sessions : account.sessions = .empty)
    (envelope : account.envelopeCredentialVersion =
      account.credentialVersion) :
    Stands account where
  envelope := envelope
  current found := by simp [sessions] at found
  device found := by simp [sessions] at found
  one found := by simp [sessions] at found

/-- Sessions that only grow fewer still stand. -/
theorem Stands.of_fewer
    (stands : Stands account)
    {after : Account}
    (envelope : after.envelopeCredentialVersion =
      account.envelopeCredentialVersion)
    (version : after.credentialVersion = account.credentialVersion)
    (suspended : account.suspendedAt = none → after.suspendedAt = none)
    (fewer : ∀ {token session}, after.sessions.get? token = some session →
      ∃ earlier, account.sessions.get? token = some earlier ∧
        session.credentialVersion = earlier.credentialVersion ∧
        session.deviceId = earlier.deviceId)
    (devices : ∀ {token session id device},
      after.sessions.get? token = some session →
        session.deviceId = some id → account.devices.get? id = some device →
          device.live = true →
            ∃ still, after.devices.get? id = some still ∧
              still.live = true) :
    Stands after where
  envelope := by rw [envelope, version, stands.envelope]
  current found := by
    obtain ⟨earlier, isEarlier, credential, _⟩ := fewer found
    obtain ⟨same, open_⟩ := stands.current isEarlier
    exact ⟨by rw [credential, version, same], suspended open_⟩
  device found := by
    obtain ⟨earlier, isEarlier, _, onDevice⟩ := fewer found
    obtain ⟨id, device, isId, isDevice, live⟩ := stands.device isEarlier
    have on := onDevice.trans isId
    obtain ⟨still, isStill, stillLive⟩ := devices found on isDevice live
    exact ⟨id, still, on, isStill, stillLive⟩
  one first second same := by
    obtain ⟨one, isOne, _, onOne⟩ := fewer first
    obtain ⟨two, isTwo, _, onTwo⟩ := fewer second
    exact stands.one isOne isTwo (by rw [← onOne, ← onTwo, same])

theorem Stands.of_same
    (stands : Stands account)
    {after : Account}
    (sessions : after.sessions = account.sessions)
    (devices : after.devices = account.devices)
    (suspended : after.suspendedAt = account.suspendedAt)
    (version : after.credentialVersion = account.credentialVersion)
    (envelope : after.envelopeCredentialVersion =
      account.envelopeCredentialVersion) :
    Stands after :=
  stands.of_fewer envelope version (fun open_ => suspended.trans open_)
    (fun found => ⟨_, sessions ▸ found, rfl, rfl⟩)
    fun _ _ isDevice live => ⟨_, devices ▸ isDevice, live⟩

/-- The device a sign-in comes back on is live. -/
theorem deviceOf_live
    {input : SignIn}
    {id : Id}
    (found : deviceOf P account input = some id) :
    ∃ device, account.devices.get? id = some device ∧ device.live = true := by
  unfold deviceOf at found
  split at found
  · next proven isProven =>
      obtain ⟨proof, _, isProof⟩ := Option.bind_eq_some_iff.mp isProven
      simp only [provenDevice, Option.bind_eq_bind, Option.bind_eq_some_iff,
        Option.ite_none_right_eq_some, Bool.and_eq_true] at isProof
      obtain ⟨row, isRow, _, _, ⟨⟨_, live⟩, _⟩, same⟩ := isProof
      rw [← Option.some.inj found, ← Option.some.inj same]
      exact ⟨row, isRow, live⟩
  · obtain ⟨token, _, isLent⟩ := Option.bind_eq_some_iff.mp found
    simp only [lentDevice, Option.bind_eq_bind, Option.bind_eq_some_iff,
      Option.ite_none_right_eq_some, Bool.and_eq_true] at isLent
    obtain ⟨_, _, other, _, row, isRow, ⟨live, _⟩, same⟩ := isLent
    rw [← Option.some.inj same]
    exact ⟨row, isRow, live⟩

/-- A sign-in leaves every session standing. -/
theorem Stands.createSession
    (stands : Stands account)
    (input : SignIn)
    (now : Nat) :
    Stands (createSession P account input now).2 := by
  unfold Auth.createSession
  dsimp only
  split
  · exact stands
  next suspended =>
  split
  · exact stands
  next version =>
  split
  · exact stands
  next failed =>
    simp only [not_or, ne_eq, Decidable.not_not] at version failed
    generalize found : deviceOf P account input = device at failed ⊢
    generalize isId : device.getD input.newDeviceId = id at failed ⊢
    generalize isLeft : ((account.sessions.retain fun token _ =>
      decide (input.previousTokenHash ≠ some token)).retain fun _ session =>
        decide (session.deviceId ≠ some id)) = left at failed ⊢
    have open_ : account.suspendedAt = none := by simpa using suspended
    have kept : ∀ {token session}, left.get? token = some session →
        account.sessions.get? token = some session ∧
          session.deviceId ≠ some id := by
      intro token session isSession
      subst isLeft
      obtain ⟨first, other⟩ := get?_retain_eq_some.mp isSession
      exact ⟨(get?_retain_eq_some.mp first).1, by simpa using other⟩
    refine ⟨stands.envelope, ?_, ?_, ?_⟩
    · intro token session isSession
      rcases get?_set_cases isSession with ⟨_, rfl⟩ | ⟨_, earlier⟩
      · exact ⟨version.1.symm, open_⟩
      · exact stands.current (kept earlier).1
    · intro token session isSession
      rcases get?_set_cases isSession with ⟨_, rfl⟩ | ⟨_, earlier⟩
      · refine ⟨id, _, rfl, get?_set_self .., ?_⟩
        cases isDevice : account.devices.get? id with
        | none => rfl
        | some row =>
          cases device with
          | none =>
            refine absurd ⟨rfl, ?_⟩ failed.1
            simp [OrderedMap.has, isDevice]
          | some other =>
            obtain rfl : other = id := isId
            obtain ⟨known, isKnown, live⟩ := deviceOf_live found
            rw [isDevice, Option.some.injEq] at isKnown
            exact isKnown ▸ live
      · obtain ⟨isEarlier, differs⟩ := kept earlier
        obtain ⟨other, row, isOther, isRow, live⟩ := stands.device isEarlier
        refine ⟨other, row, isOther, ?_, live⟩
        have apart : other ≠ id := fun same => differs (same ▸ isOther)
        rw [get?_set, if_neg apart, isRow]
    · intro token other session second isSession isSecond same
      rcases get?_set_cases isSession with ⟨isToken, rfl⟩ |
          ⟨_, earlier⟩ <;>
        rcases get?_set_cases isSecond with ⟨isOther, rfl⟩ |
          ⟨_, later⟩
      · rw [isToken, isOther]
      · exact absurd same.symm (kept later).2
      · exact absurd same (kept earlier).2
      · exact stands.one (kept earlier).1 (kept later).1 same

/-- Revoking devices ends the sessions that stood on them. -/
theorem Stands.revoke
    (stands : Stands account)
    {meets : Id → Device → Bool}
    {gone : Id → Bool}
    {now : Nat}
    (covers : ∀ id device, account.devices.get? id = some device →
      device.live = true → meets id device = true → gone id = true) :
    Stands ((account.revoke meets now).endSessions gone) := by
  refine stands.of_fewer rfl rfl id ?_ ?_
  · intro token session found
    exact ⟨session, (get?_retain_eq_some.mp found).1, rfl, rfl⟩
  · intro token session id device found on isDevice live
    have spared := (get?_retain_eq_some.mp found).2
    rw [on] at spared
    have kept : meets id device = false := by
      by_contra met
      simp [covers id device isDevice live (by simpa using met)] at spared
    refine ⟨device, ?_, live⟩
    simp only [Account.endSessions, Account.revoke, get?_update,
      isDevice, Option.map_some, kept, Bool.false_and, Bool.false_eq_true,
      ↓reduceIte]

theorem Stands.endSession
    (stands : Stands account)
    (tokenHash : Bytes) :
    Stands (account.endSession tokenHash) := by
  refine stands.of_fewer rfl rfl id ?_ fun _ _ isDevice live =>
    ⟨_, isDevice, live⟩
  intro token session found
  simp only [Account.endSession, get?_erase] at found
  split at found
  · simp at found
  · exact ⟨session, found, rfl, rfl⟩

theorem Stands.touchSession
    (stands : Stands account)
    (tokenHash : Bytes)
    (lifetime : Lifetime)
    (now : Nat) :
    Stands (touchSession account tokenHash lifetime now) := by
  unfold Auth.touchSession
  split
  · exact stands
  · split
    · refine stands.of_fewer rfl rfl id ?_ ?_
      · intro token session found
        simp only [get?_update, Option.map_eq_some_iff] at found
        obtain ⟨earlier, isEarlier, rfl⟩ := found
        exact ⟨earlier, isEarlier, by split <;> rfl, by split <;> rfl⟩
      · intro token session id device _ _ isDevice live
        simp only [get?_update, isDevice, Option.map_some]
        exact ⟨_, rfl, by split <;> exact live⟩
    · exact stands

theorem Stands.registerDevice
    (stands : Stands account)
    (tokenHash : Bytes)
    (kind : DeviceKind)
    (signingPublicKey : Option Bytes)
    (now : Nat) :
    Stands (registerDevice account tokenHash kind signingPublicKey now).2 := by
  unfold Auth.registerDevice
  split
  · exact stands
  · next id _ =>
      split
      · exact stands
      · next device isDevice =>
          split_ifs
          iterate 4 exact stands
          refine stands.of_fewer rfl rfl (fun open_ => open_)
            (fun found => ⟨_, found, rfl, rfl⟩) ?_
          intro token session other row _ _ isRow live
          rw [get?_set]
          split
          · next same =>
              rw [same, isDevice, Option.some.injEq] at isRow
              exact ⟨_, rfl, isRow ▸ live⟩
          · exact ⟨row, isRow, live⟩

/-- Revoking the other devices leaves the sessions standing. -/
theorem Stands.revokeOtherDevices
    (stands : Stands account)
    (tokenHash : Bytes)
    (now : Nat) :
    Stands (revokeOtherDevices account tokenHash now).2 := by
  unfold Auth.revokeOtherDevices
  split
  · exact stands
  · next acting _ =>
      have revoked : Stands ((account.revoke (fun id _ => id ≠ acting)
          now).endSessions fun id =>
            (account.devices.select fun id row => id ≠ acting &&
              row.revokedAt.isNone).any fun other => other.1 = id) := by
        refine stands.revoke fun id device isDevice live other => ?_
        simp only [Device.live, Bool.and_eq_true] at live
        simp only [any_eq_true, mem_select, Prod.exists,
          decide_eq_true_eq]
        exact ⟨id, device, ⟨isDevice, by simpa [live.1] using other⟩, rfl⟩
      exact revoked.of_fewer rfl rfl (fun open_ => open_)
        (fun found => ⟨_, (get?_retain_eq_some.mp found).1, rfl,
          rfl⟩)
        fun _ _ isDevice live => ⟨_, isDevice, live⟩

/-- The cleanup leaves every session standing. -/
theorem Stands.cleanupExpired
    (stands : Stands account)
    (ended : Bytes → Bool)
    (picked : Id → Bool)
    (now : Nat) :
    Stands (cleanupExpired account ended picked now) := by
  refine stands.of_fewer rfl rfl id ?_ ?_
  · intro token session found
    exact ⟨session, (get?_retain_eq_some.mp found).1, rfl, rfl⟩
  · intro token session id device found on isDevice live
    -- A device with a session left is swept by no statement.
    have busy : ∀ devices, Account.noSession { account with
        sessions := account.sessions.retain fun token session =>
          !(ended token && session.expiresAt < now)
        devices := devices } id = false := by
      intro devices
      simp only [Account.noSession, Bool.not_eq_false']
      exact exists_eq_true.mpr
        ⟨token, session, found, by simp [on]⟩
    have open_ : device.revokedAt = none := by
      simp only [Device.live, Bool.and_eq_true] at live
      exact Option.isNone_iff_eq_none.mp live.1
    refine ⟨device, ?_, live⟩
    simp only [Auth.cleanupExpired, Account.revoke]
    refine get?_retain_eq_some.mpr ⟨?_, by simp [open_]⟩
    have kept : (account.devices.retain fun id row =>
        !(picked id && row.signingPublicKey.isNone &&
          row.createdAt + DAY < now && Account.noSession { account with
            sessions := account.sessions.retain fun token session =>
              !(ended token && session.expiresAt < now) } id)).get? id =
        some device :=
      get?_retain_eq_some.mpr
        ⟨isDevice, by rw [busy account.devices]; simp⟩
    rw [get?_update, kept, Option.map_some, busy]
    simp

/-- Every operation leaves every session standing. -/
theorem Stands.step
    (stands : Stands account)
    (op : Op) :
    Stands (step P account op) := by
  cases op with
  | createSession input now => exact stands.createSession input now
  | endSession tokenHash => exact stands.endSession tokenHash
  | touchSession tokenHash lifetime now =>
    exact stands.touchSession tokenHash lifetime now
  | signOutDevice tokenHash now =>
    simp only [Auth.step, answer, signOutDevice]
    split
    · exact stands
    · split
      · exact stands.endSession tokenHash
      · next id _ =>
          refine Stands.endSession (stands.revoke ?_) tokenHash
          exact fun _ _ _ _ same => same
  | registerDevice tokenHash kind signingPublicKey now =>
    exact stands.registerDevice tokenHash kind signingPublicKey now
  | revokeDevice deviceId tokenHash now =>
    simp only [Auth.step, answer, revokeDevice]
    split
    · exact stands
    · split_ifs
      · exact stands
      · refine stands.revoke ?_
        exact fun _ _ _ _ same => same
      · exact stands
  | revokeOtherDevices tokenHash now =>
    exact stands.revokeOtherDevices tokenHash now
  | cleanupExpired ended picked now =>
    exact stands.cleanupExpired ended picked now
  | setUserSuspended suspended now =>
    cases suspended with
    | true => exact stands_of_empty rfl stands.envelope
    | false =>
      exact stands.of_fewer rfl rfl (fun _ => rfl)
        (fun found => ⟨_, found, rfl, rfl⟩)
        fun _ _ isDevice live => ⟨_, isDevice, live⟩
  | changeAccountSecurity input now =>
    simp only [Auth.step, answer, changeAccountSecurity]
    split_ifs
    · exact stands
    · exact stands
    · exact stands_of_empty rfl rfl
  | resetAccountPassword credentialVersion keyVersion recovery =>
    simp only [Auth.step, answer, resetAccountPassword]
    split_ifs
    · exact stands
    · exact stands_of_empty rfl rfl
  | initializeAccount asking recovery identity personal workspace now =>
    simp only [Auth.step, answer, initializeAccount]
    split_ifs <;> exact stands.of_same rfl rfl rfl rfl rfl
  | succeedIdentity asking next signature consent now =>
    simp only [Auth.step, answer, succeedIdentity]
    repeat' first | exact stands.of_same rfl rfl rfl rfl rfl | split
  | backfillSuccessionConsent asking oldKeyVersion consent now =>
    simp only [Auth.step, answer, backfillSuccessionConsent]
    repeat' first | exact stands.of_same rfl rfl rfl rfl rfl | split
  | upgradeIdentity asking next now =>
    simp only [Auth.step, answer, upgradeIdentity]
    repeat' first | exact stands.of_same rfl rfl rfl rfl rfl | split
  | putSettingsKey key =>
    exact stands.of_same rfl rfl rfl rfl rfl
  | settleGrants grants =>
    exact stands.of_same rfl rfl rfl rfl rfl

theorem Stands.run
    (stands : Stands account)
    (ops : List Op) :
    Stands (Runs.run (Auth.step P) account ops) :=
  Runs.keeps_of_step Stands (fun _ op kept => kept.step op) ops stands

theorem Registered.stands (registered : Registered account) :
    Stands account :=
  stands_of_empty registered.sessions registered.envelope

/--
In every run a token is answered for exactly while its session is there and
within its deadlines: a session's device was not removed, its credential is the
current one and its account is not suspended, or it would have ended.
-/
theorem getSession_of_run
    (registered : Registered account)
    (ops : List Op)
    (tokenHash : Bytes)
    (lifetime : Lifetime)
    (now : Nat) :
    getSession (Runs.run (step P) account ops) tokenHash lifetime now =
      ((Runs.run (step P) account ops).sessions.get? tokenHash).bind
        fun session =>
          if now < session.expiresAt ∧
              now < session.createdAt + lifetime.maxSeconds then
            session.deviceId
          else
            none := by
  have stands := (registered.stands).run (P := P) ops
  generalize Runs.run (step P) account ops = reached at stands ⊢
  unfold getSession
  cases found : reached.sessions.get? tokenHash with
  | none => rfl
  | some session =>
    obtain ⟨credential, open_⟩ := stands.current found
    obtain ⟨id, device, isId, isDevice, live⟩ := stands.device found
    simp [isId, isDevice, credential, live, open_]

theorem getSession_of_run_toy :
    getSession
      (Runs.run (step (toyWith fun _ => 0)) (toyAccount none)
        [.createSession (toySignIn 7 "device") 5, .touchSession [7] ⟨50, 90⟩ 6,
          .createSession (toySignIn 8 "other") 6])
      [7] ⟨50, 90⟩ 55 = some "device" := by
  refine (getSession_of_run ⟨rfl, rfl, rfl, rfl, ?_⟩ _ _ _ _).trans rfl
  intro row found
  simp [toyAccount] at found

/-- A device is gone: removed, or its row swept since. -/
def Gone (account : Account) (id : Id) : Prop :=
  ∀ device, account.devices.get? id = some device → device.revokedAt ≠ none

/-- Whether a write gives no new device an id. -/
def Spares (id : Id) (_ : Account) : Op → Prop
  | .createSession input _ => input.newDeviceId ≠ id
  | _ => True

/-- Each device there after a write was there, and is revoked if it was. -/
def Carries (before after : OrderedMap Id Device) : Prop :=
  ∀ id device, after.get? id = some device →
    ∃ earlier, before.get? id = some earlier ∧
      (earlier.revokedAt ≠ none → device.revokedAt ≠ none)

theorem carries_refl (devices : OrderedMap Id Device) :
    Carries devices devices :=
  fun _ _ found => ⟨_, found, fun revoked => revoked⟩

theorem carries_update
    (devices : OrderedMap Id Device)
    (meets : Id → Device → Bool)
    {change : Device → Device}
    (keeps : ∀ row, row.revokedAt ≠ none → (change row).revokedAt ≠ none) :
    Carries devices (devices.update meets change) := by
  intro id device found
  rw [get?_update, Option.map_eq_some_iff] at found
  obtain ⟨earlier, isEarlier, rfl⟩ := found
  refine ⟨earlier, isEarlier, fun revoked => ?_⟩
  split
  · exact keeps earlier revoked
  · exact revoked

theorem carries_revoke
    (account : Account)
    (meets : Id → Device → Bool)
    (now : Nat) :
    Carries account.devices (account.revoke meets now).devices :=
  carries_update _ _ fun _ _ => Option.some_ne_none now

/-- Only a sign-in brings a revoked device back. -/
theorem carries_step
    {op : Op}
    (other : ∀ input now, op ≠ .createSession input now) :
    Carries account.devices (step P account op).devices := by
  cases op with
  | createSession input now => exact absurd rfl (other input now)
  | endSession tokenHash => exact carries_refl _
  | touchSession tokenHash lifetime now =>
    simp only [step, answer, touchSession]
    split
    · exact carries_refl _
    · split
      · exact carries_update _ _ fun _ revoked => revoked
      · exact carries_refl _
  | signOutDevice tokenHash now =>
    simp only [step, answer, signOutDevice]
    split
    · exact carries_refl _
    · split
      · exact carries_refl _
      · exact carries_revoke _ _ now
  | registerDevice tokenHash kind signingPublicKey now =>
    simp only [step, answer, registerDevice]
    split
    · exact carries_refl _
    · split
      · exact carries_refl _
      · next device isDevice =>
          split_ifs with revoked
          iterate 4 exact carries_refl _
          intro other row found
          rcases get?_set_cases found with ⟨rfl, rfl⟩ |
            ⟨_, earlier⟩
          · exact ⟨device, isDevice, fun was => was⟩
          · exact ⟨row, earlier, fun was => was⟩
  | revokeDevice deviceId tokenHash now =>
    simp only [step, answer, revokeDevice]
    split
    · exact carries_refl _
    · split_ifs
      · exact carries_refl _
      · exact carries_revoke _ _ now
      · exact carries_refl _
  | revokeOtherDevices tokenHash now =>
    simp only [step, answer, revokeOtherDevices]
    split
    · exact carries_refl _
    · exact carries_revoke _ _ now
  | cleanupExpired ended picked now =>
    simp only [step, answer, cleanupExpired]
    intro id device found
    obtain ⟨swept, _⟩ := get?_retain_eq_some.mp found
    obtain ⟨middle, isMiddle, keeps⟩ := carries_revoke _ _ now id device swept
    exact ⟨middle, (get?_retain_eq_some.mp isMiddle).1, keeps⟩
  | setUserSuspended suspended now =>
    cases suspended <;> exact carries_refl _
  | putSettingsKey key => exact carries_refl _
  | settleGrants grants => exact carries_refl _
  | _ =>
    simp only [step, answer, changeAccountSecurity, resetAccountPassword,
      initializeAccount, succeedIdentity, backfillSuccessionConsent,
      upgradeIdentity]
    repeat' first | exact carries_refl _ | split

/-- A removed device stays out through an operation that spares it. -/
theorem Gone.step
    {id : Id}
    (gone : Gone account id)
    {op : Op}
    (spares : Spares id account op) :
    Gone (step P account op) id := by
  by_cases other : ∀ input now, op ≠ .createSession input now
  · intro device found
    obtain ⟨earlier, isEarlier, keeps⟩ := carries_step other id device found
    exact keeps (gone earlier isEarlier)
  · simp only [ne_eq, not_forall, not_not] at other
    obtain ⟨input, now, rfl⟩ := other
    intro device found
    simp only [Auth.step, answer, createSession] at found
    split at found
    · exact gone device found
    split at found
    · exact gone device found
    split at found
    · exact gone device found
    rcases get?_set_cases found with ⟨isId, _⟩ | ⟨_, earlier⟩
    · -- A sign-in comes back on a live device, or makes one of its own id.
      cases isFound : deviceOf P account input with
      | none =>
        rw [isFound] at isId
        exact absurd isId.symm spares
      | some known =>
        obtain ⟨row, isRow, live⟩ := deviceOf_live isFound
        rw [isFound] at isId
        have open_ := gone row (isId ▸ isRow)
        simp only [Device.live, Bool.and_eq_true,
          Option.isNone_iff_eq_none] at live
        exact absurd live.1 open_
    · exact gone device earlier

/--
A device once removed is never answered for again, whoever signs in with its
key or its cookie: in no later state does a token lead to it.
-/
theorem removed_stays_out
    (before after : List Op)
    {id : Id}
    {device : Device}
    (found : (Runs.run (step P) account before).devices.get? id = some device)
    (removed : device.revokedAt ≠ none)
    (spares : Runs.Each (step P) (Spares id)
      (Runs.run (step P) account before) after)
    (tokenHash : Bytes)
    (lifetime : Lifetime)
    (now : Nat) :
    getSession (Runs.run (step P) account (before ++ after)) tokenHash lifetime
      now ≠ some id := by
  rw [Runs.run_append]
  have gone : Gone (Runs.run (step P) (Runs.run (step P) account before) after)
      id := by
    refine Runs.keeps_of_each (fun state => Gone state id)
      (fun state op met gone => gone.step met) spares ?_
    intro row isRow
    rw [found, Option.some.injEq] at isRow
    exact isRow ▸ removed
  intro answered
  simp only [getSession, Option.bind_eq_bind, Option.bind_eq_some_iff,
    Option.ite_none_right_eq_some] at answered
  obtain ⟨session, _, other, _, row, isRow, ⟨_, live, _⟩, same⟩ := answered
  rw [Option.some.injEq] at same
  subst same
  simp only [Device.live, Bool.and_eq_true, Option.isNone_iff_eq_none] at live
  exact gone row isRow live.1

theorem removed_stays_out_toy :
    getSession
      (Runs.run (step (toyWith fun _ => 0)) (toyAccount none)
        ([.createSession (toySignIn 7 "device") 5, .signOutDevice [7] 6] ++
          [.createSession (toySignIn 7 "other") 6]))
      [7] ⟨50, 90⟩ 7 ≠ some "device" := by
  refine removed_stays_out _ _ rfl ?_ ?_ _ _ _
  · decide
  · exact ⟨by simp [Spares, toySignIn], trivial⟩

end Auth

end HushOS
