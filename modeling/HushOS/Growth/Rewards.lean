import HushOS.Toolkit.Runs
import HushOS.Toolkit.Tables

namespace HushOS

open Toolkit

namespace Growth

/-!
# Referral rewards

The two transactions that grant storage for a referral, statement by statement:
each locks its own referral's row, and between any two of its statements other
transactions run and commit.  A statement reads what is committed when it runs
and what its own transaction has written.
-/

/-- A uuid. -/
abbrev Uuid := Nat

/-- `referrals.kind`. -/
inductive ReferralKind where
  | user
  | affiliate
  deriving DecidableEq

/-- A row of `referrals`. -/
structure Referral where
  referredUserId : Uuid
  kind : ReferralKind
  referrerUserId : Option Uuid
  deriving DecidableEq

/-- `RewardSide`. -/
inductive RewardSide where
  | referrer
  | referred
  | referrerPaid
  deriving DecidableEq

/-- The words of a side in `referral_rewards.side`. -/
def RewardSide.text : RewardSide → String
  | .referrer => "referrer"
  | .referred => "referred"
  | .referrerPaid => "referrer-paid"

/-- A row of `referral_rewards`. -/
structure Reward where
  referralId : Uuid
  userId : Uuid
  side : RewardSide
  quotaBytes : Nat
  entitlementId : Option Uuid
  deriving DecidableEq

/-- A row of `storage_entitlements` whose source is a referral. -/
structure Entitlement where
  id : Uuid
  workspaceId : Uuid
  sourceReference : String
  quotaBytes : Nat
  deriving DecidableEq

/-- What the server is configured with. -/
structure Settings where
  bonusBytes : Nat
  signupCapBytes : Nat
  paidBonusBytes : Nat
  paidCapBytes : Nat

/-- A call of one of the two grants. -/
inductive Call where
  | signup (referralId : Uuid)
  | paid (referredUserId : Uuid)
  deriving DecidableEq

/-- The bonus a call grants a side. -/
def Settings.bonusOf (settings : Settings) : Call → Nat
  | .signup _ => settings.bonusBytes
  | .paid _ => settings.paidBonusBytes

/-- The cap a call holds the referrer to. -/
def Settings.capOf (settings : Settings) : Call → Nat
  | .signup _ => settings.signupCapBytes
  | .paid _ => settings.paidCapBytes

/-- The side of the referrer a call grants. -/
def Call.referrerSide : Call → RewardSide
  | .signup _ => .referrer
  | .paid _ => .referrerPaid

/-- Whom a `grantOnce` is for. -/
inductive Turn where
  | referred
  | referrer
  deriving DecidableEq

/-- The statement a transaction runs next. -/
inductive Phase where
  /-- `grantOnce`: the reward of this referral and side, if there is one. -/
  | checking (turn : Turn)
  /-- `grantOnce`: the person's own workspace. -/
  | finding (turn : Turn)
  /-- `grantOnce`: the entitlement. -/
  | entitling (turn : Turn) (workspaceId : Uuid)
  /-- `grantOnce`: the reward that says why. -/
  | recording (turn : Turn) (entitlementId : Option Uuid)
  /-- `grantedBytes` and the cap. -/
  | totalling
  /-- The commit. -/
  | settled
  deriving DecidableEq

/-- A transaction that holds its referral's row, and what it has written. -/
structure Held where
  call : Call
  referralId : Uuid
  referredUserId : Uuid
  referrerUserId : Uuid
  phase : Phase
  rewards : List Reward
  entitlements : List Entitlement
  deriving DecidableEq

/-- A transaction in flight: its `for update` still waits, or it holds the row. -/
inductive Session where
  | waiting (call : Call)
  | holding (held : Held)
  deriving DecidableEq

/-- What is committed, and the transactions in flight. -/
structure State where
  referrals : OrderedMap Uuid Referral
  personalWorkspaces : OrderedMap Uuid Uuid
  rewards : List Reward
  entitlements : List Entitlement
  sessions : OrderedMap Nat Session

/-- Nobody has arrived yet. -/
def State.empty : State where
  referrals := .empty
  personalWorkspaces := .empty
  rewards := []
  entitlements := []
  sessions := .empty

/-- Bytes already granted to a person on one side, for the caps. -/
def grantedBytes
    (rewards : List Reward)
    (userId : Uuid)
    (side : RewardSide) : Nat :=
  ((rewards.filter fun reward =>
    reward.userId = userId ∧ reward.side = side).map Reward.quotaBytes).sum

namespace Held

/-- The side a turn is for. -/
def sideOf (held : Held) : Turn → RewardSide
  | .referred => .referred
  | .referrer => held.call.referrerSide

/-- The person a turn is for. -/
def userOf (held : Held) : Turn → Uuid
  | .referred => held.referredUserId
  | .referrer => held.referrerUserId

/-- The statement after a `grantOnce`. -/
def after (held : Held) : Turn → Held
  | .referred => { held with phase := .totalling }
  | .referrer => { held with phase := .settled }

/-- The row that says why a turn's entitlement is there. -/
def rewardOf
    (held : Held)
    (turn : Turn)
    (quotaBytes : Nat)
    (entitlementId : Option Uuid) : Reward where
  referralId := held.referralId
  userId := held.userOf turn
  side := held.sideOf turn
  quotaBytes := quotaBytes
  entitlementId := entitlementId

/-- The reference of an entitlement, unique among the entitlements. -/
def sourceReference (held : Held) (turn : Turn) : String :=
  s!"referral:{held.referralId}:{(held.sideOf turn).text}"

end Held

/-- The rows a session has written and not committed. -/
def Session.entitlements : Session → List Entitlement
  | .waiting _ => []
  | .holding held => held.entitlements

/-- Whether a session holds a referral's row. -/
def Session.locks (referralId : Uuid) : Session → Bool
  | .waiting _ => false
  | .holding held => held.referralId = referralId

namespace State

/-- A session's next statement is another. -/
def put (state : State) (sid : Nat) (held : Held) : State :=
  { state with sessions := state.sessions.set sid (.holding held) }

/-- A session ends with nothing written. -/
def drop (state : State) (sid : Nat) : State :=
  { state with sessions := state.sessions.erase sid }

/-- A session commits what it wrote. -/
def commit (state : State) (sid : Nat) (held : Held) : State :=
  { state with
    rewards := state.rewards ++ held.rewards
    entitlements := state.entitlements ++ held.entitlements
    sessions := state.sessions.erase sid }

/-- The referral a call's first statement selects. -/
def referralOf (state : State) : Call → Option (Uuid × Referral)
  | .signup referralId =>
    (state.referrals.get? referralId).map fun row => (referralId, row)
  | .paid referredUserId =>
    state.referrals.entries.find? fun entry =>
      entry.2.referredUserId = referredUserId ∧ entry.2.kind = .user

/-- Where a call stands once it holds its referral's row. -/
def heldOf
    (call : Call)
    (referralId : Uuid)
    (referral : Referral)
    (referrerUserId : Uuid) : Held where
  call := call
  referralId := referralId
  referredUserId := referral.referredUserId
  referrerUserId := referrerUserId
  phase :=
    match call with
    | .signup _ => .checking .referred
    | .paid _ => .totalling
  rewards := []
  entitlements := []

/-- A call's first statement: its referral's row, for update. -/
def lock (state : State) (sid : Nat) (call : Call) : State :=
  match state.referralOf call with
  | none => state.drop sid
  | some (referralId, referral) =>
    if state.sessions.exists_ fun _ session =>
        session.locks referralId then
      -- It waits for the transaction that holds the row.
      state
    else
      match referral.kind, referral.referrerUserId with
      | .user, some referrerUserId =>
        state.put sid (heldOf call referralId referral referrerUserId)
      | _, _ => state.drop sid

/-- Whether another transaction's entitlement, not committed, has a reference. -/
def entitling
    (state : State)
    (sid : Nat)
    (reference : String) : Bool :=
  state.sessions.exists_ fun other session =>
    other ≠ sid ∧
      session.entitlements.any fun row => row.sourceReference = reference

/-- The entitlement of a `grantOnce`: on conflict, nothing. -/
def entitle
    (state : State)
    (sid : Nat)
    (held : Held)
    (turn : Turn)
    (workspaceId quotaBytes drawn : Nat) : State :=
  let reference := held.sourceReference turn
  let seen := state.entitlements ++ held.entitlements
  if state.entitling sid reference then
    -- The insert waits for the transaction that has the reference.
    state
  else if seen.any fun row => row.sourceReference = reference then
    state.put sid { held with phase := .recording turn none }
  else if seen.any fun row => row.id = drawn then
    state.drop sid
  else
    state.put sid
      { held with
        phase := .recording turn (some drawn)
        entitlements := held.entitlements ++
          [{ id := drawn
             workspaceId := workspaceId
             sourceReference := reference
             quotaBytes := quotaBytes }] }

/-- One statement of a transaction that holds its row. -/
def advanceHeld
    (settings : Settings)
    (state : State)
    (sid : Nat)
    (held : Held)
    (drawn : Uuid) : State :=
  let bonus := settings.bonusOf held.call
  match held.phase with
  | .checking turn =>
    if (state.rewards ++ held.rewards).any fun reward =>
        reward.referralId = held.referralId ∧
          reward.side = held.sideOf turn then
      state.put sid (held.after turn)
    else
      state.put sid { held with phase := .finding turn }
  | .finding turn =>
    match state.personalWorkspaces.get? (held.userOf turn) with
    | none => state.put sid (held.after turn)
    | some workspaceId =>
      state.put sid { held with phase := .entitling turn workspaceId }
  | .entitling turn workspaceId =>
    state.entitle sid held turn workspaceId bonus drawn
  | .recording turn entitlementId =>
    state.put sid
      (({ held with
          rewards := held.rewards ++
            [held.rewardOf turn bonus entitlementId] } : Held).after turn)
  | .totalling =>
    let earned := grantedBytes (state.rewards ++ held.rewards)
      held.referrerUserId held.call.referrerSide
    if earned + bonus ≤ settings.capOf held.call then
      state.put sid { held with phase := .checking .referrer }
    else
      state.put sid { held with phase := .settled }
  | .settled => state.commit sid held

/-- One statement of a session. -/
def advance
    (settings : Settings)
    (state : State)
    (sid : Nat)
    (drawn : Uuid) : State :=
  match state.sessions.get? sid with
  | none => state
  | some (.waiting call) => state.lock sid call
  | some (.holding held) => state.advanceHeld settings sid held drawn

end State

/-- Whom a new account arrived through. -/
inductive Arrival where
  | user (referrerUserId : Uuid)
  | affiliate
  deriving DecidableEq

/-- Records who a new account arrived through: once, and never oneself. -/
def attributeSignup
    (state : State)
    (referralId referredUserId : Uuid)
    (through : Arrival) : State :=
  if through = .user referredUserId then
    state
  else if state.referrals.has referralId ||
      state.referrals.exists_ fun _ row =>
        row.referredUserId = referredUserId then
    state
  else
    { state with
      referrals := state.referrals.set referralId
        (match through with
        | .user referrerUserId =>
          { referredUserId := referredUserId
            kind := .user
            referrerUserId := some referrerUserId }
        | .affiliate =>
          { referredUserId := referredUserId
            kind := .affiliate
            referrerUserId := none }) }

/-- What happens next. -/
inductive Action where
  /-- A new account is attributed. -/
  | arrive (referralId referredUserId : Uuid) (through : Arrival)
  /-- A person's own workspace is there. -/
  | settle (userId workspaceId : Uuid)
  /-- A grant is called; its callers call none for no bonus. -/
  | start (sid : Nat) (call : Call)
  /-- A transaction runs its next statement, with the id an insert would draw. -/
  | advance (sid : Nat) (drawn : Uuid)
  /-- A transaction fails, or its server stops. -/
  | fail (sid : Nat)
  deriving DecidableEq

/-- The state after what happens next. -/
def step (settings : Settings) (state : State) : Action → State
  | .arrive referralId referredUserId through =>
    attributeSignup state referralId referredUserId through
  | .settle userId workspaceId =>
    { state with
      personalWorkspaces :=
        state.personalWorkspaces.set userId workspaceId }
  | .start sid call =>
    if settings.bonusOf call = 0 || state.sessions.has sid then
      state
    else
      { state with sessions := state.sessions.set sid (.waiting call) }
  | .advance sid drawn => state.advance settings sid drawn
  | .fail sid => state.drop sid

/-- The state after a run. -/
def run (settings : Settings) (actions : List Action) : State :=
  Runs.run (step settings) .empty actions

end Growth

end HushOS
