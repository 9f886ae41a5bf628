import HushOS.Acceptance.Entries
import HushOS.Toolkit.Tables

namespace HushOS

open Toolkit

namespace Groups

/-!
# Memberships

What the server keeps of one group beside its signed chain: who is a member
with what roles, who departed and is due to be marked left, and to whom the
group's key is sealed.  A roster projects on these under the policy of the
route it came by; departures and account deletions change them with no roster.

What a check reads of other tables (seats, the pool, one family per account,
the payer's plan, folders and their grants) is given as what it answers.
-/

/-- Where someone who was invited stands. -/
inductive MembershipState where
  | accepted
  | active
  | left
  | removed
  deriving DecidableEq, Repr

/-- A membership, with the roles its invitation allows. -/
structure Membership where
  state : MembershipState
  roles : List GroupRole
  invitationRoles : List GroupRole
  deriving DecidableEq, Repr

/-- A seal of the group's seed to a holder. -/
structure SealInput where
  groupKeyVersion : Nat
  holderUserId : String
  holderKeyVersion : Nat
  sealerUserId : String
  deriving DecidableEq, Repr

/-- A group: its chain's head, its projection, and its seals by version. -/
structure Group where
  head : Roster
  rosterDigest : String
  groupKeyVersion : Nat
  chainRevision : Nat
  successionDue : Bool
  dissolved : Bool
  memberships : OrderedMap String Membership
  departures : OrderedMap String Bool
  seals : OrderedMap (Nat × String) SealInput

/-- Why a call is refused. -/
inductive Refusal where
  | notMember
  | forbidden
  | stale
  | elsewhere
  | successionDue
  | notPending
  | leftDue (userIds : List String)
  | membersChanged (reason : String)
  | invalid (reason : String)
  | organizer
  | lastHolder
  | notLast
  | admitted
  | emailMismatch
  | alreadyMember
  deriving DecidableEq, Repr

/-- The group, unless it is dissolved. -/
def lockGroup (group : Group) : Except Refusal Unit :=
  refuseIf (group.dissolved = true) .notMember

/-- The roles of an active member. -/
def Group.activeRoles (group : Group) (userId : String) :
    Option (List GroupRole) :=
  match group.memberships.get? userId with
  | some member =>
    if member.state = .active then some member.roles else none
  | none => none

/-- Whether someone is an active member. -/
def Group.isActive (group : Group) (userId : String) : Bool :=
  (group.activeRoles userId).isSome

/-- Whether someone is an active member with a role. -/
def Group.holds (group : Group) (userId : String) (role : GroupRole) : Bool :=
  match group.activeRoles userId with
  | some roles => roles.contains role
  | none => false

/-- The active members' ids. -/
def listActiveMemberIds (group : Group) : List String :=
  group.memberships.keys.filter group.isActive

/-- The uploader's roles, who must be active. -/
def uploaderRoles (group : Group) (uploader : String) :
    Except Refusal (List GroupRole) :=
  match group.activeRoles uploader with
  | some roles => .ok roles
  | none => .error .notMember

/-- The caller is active and holds `members`. -/
def requireHolder (group : Group) (userId : String) : Except Refusal Unit := do
  let roles ← uploaderRoles group userId
  refuseIf (roles.contains .members = false) .forbidden

/-- Store a seal, one for each version and holder. -/
def Group.putSeal (group : Group) (given : SealInput) : Group :=
  { group with
    seals := group.seals.set (given.groupKeyVersion, given.holderUserId)
      given }

/--
Each seal is by the uploader, to an active holder, at a version there is.  A
holder's seal is never moved to an older identity of theirs; at the same one
the holder or a `members` holder may replace it.
-/
def upsertSeals
    (uploader : String)
    (uploaderHolds : Bool)
    (groupKeyVersion : Nat)
    (seals : List SealInput)
    (group : Group) : Except Refusal Group := do
  forEach
    (fun given : SealInput => do
      refuseIf (given.sealerUserId ≠ uploader) .forbidden
      refuseIf (group.holds given.holderUserId .members = false)
        (.membersChanged "seal-holder")
      refuseIf (groupKeyVersion < given.groupKeyVersion)
        (.invalid "seal-key-version"))
    seals
  -- One statement never writes one row twice.
  refuseIf
    (¬ (seals.map fun given =>
      (given.groupKeyVersion, given.holderUserId)).Nodup)
    .stale
  .ok <| seals.foldl
    (fun group given =>
      match group.seals.get? (given.groupKeyVersion, given.holderUserId) with
      | some stored =>
        if stored.holderKeyVersion ≤ given.holderKeyVersion ∧
            (stored.holderKeyVersion < given.holderKeyVersion ∨
              stored.holderUserId = uploader ∨ uploaderHolds = true) then
          group.putSeal given
        else
          group
      | none => group.putSeal given)
    group

/-- Someone's access goes: every seal to them. -/
def revokeAccess (group : Group) (userId : String) : Group :=
  { group with seals := group.seals.keep fun key => key.2 ≠ userId }

/-- The route a roster came by. -/
inductive ChainRoute where
  | admission (userId : String)
  | member (userId : String)
  | remove (userId : String)
  | area
  | rotation
  | retire
  | roster
  | succession
  deriving DecidableEq, Repr

/-- The person a route is about. -/
def ChainRoute.target : ChainRoute → Option String
  | .admission userId => some userId
  | .member userId => some userId
  | .remove userId => some userId
  | _ => none

/-- The word for a route. -/
def ChainRoute.kind : ChainRoute → String
  | .admission _ => "admit"
  | .member _ => "member"
  | .remove _ => "remove"
  | .area => "area"
  | .rotation => "rotation"
  | .retire => "retire"
  | .roster => "roster"
  | .succession => "succession"

/-- An entry a roster changes. -/
structure EntryChange where
  userId : String
  status : MemberStatus
  roles : List GroupRole
  rekeyed : Bool
  deriving DecidableEq, Repr

/-- What a roster changes: the entries whose version is its own. -/
def changesOf (previous next : Roster) : List EntryChange :=
  (next.members.filter fun entry =>
      entry.sinceVersion = next.rosterVersion).map fun entry =>
    { userId := entry.userId
      status := entry.status
      roles := entry.roles
      rekeyed :=
        match rosterEntry previous entry.userId with
        | some before => !sameKeys before entry
        | none => false }

/-- Whether two lists hold the same roles. -/
def sameRoles (first second : List GroupRole) : Bool :=
  first.length = second.length &&
    joined ',' ((sortBy GroupRole.name first).map GroupRole.name) =
      joined ',' ((sortBy GroupRole.name second).map GroupRole.name)

/-- A membership changed, where there is one. -/
def Group.setMembership
    (group : Group)
    (userId : String)
    (change : Membership → Membership) : Group :=
  { group with
    memberships := group.memberships.update (fun key _ => key = userId)
      change }

/-- Whether the roster before listed someone active with `members`. -/
def heldBefore
    (stored : OrderedMap String Membership)
    (departed : OrderedMap String Bool)
    (userId : String) : Bool :=
  match stored.get? userId with
  | some member =>
    if member.state = .active then member.roles.contains .members
    else (departed.get? userId).getD false
  | none => (departed.get? userId).getD false

/-- The state someone is stored with. -/
def stateOf (stored : OrderedMap String Membership) (userId : String) :
    Option MembershipState :=
  (stored.get? userId).map Membership.state

/--
One change projected, judged by what is stored of the person; whether it drops
a holder, with the group after it.
-/
def applyChange
    (stored : OrderedMap String Membership)
    (departed : OrderedMap String Bool)
    (route : ChainRoute)
    (applied : Group × Bool)
    (change : EntryChange) : Except Refusal (Group × Bool) :=
  let (group, dropsHolder) := applied
  let userId := change.userId
  let held := heldBefore stored departed userId
  if route = .admission userId then do
    refuseIf (change.status ≠ .active) (.invalid "admit-entry")
    let allowed := ((stored.get? userId).map Membership.invitationRoles).getD []
    refuseIf (∃ role ∈ change.roles, role ∉ allowed) (.invalid "admit-roles")
    .ok (group.setMembership userId fun member =>
      { member with state := .active, roles := change.roles }, dropsHolder)
  else if route = .remove userId then do
    refuseIf (change.status ≠ .left) (.invalid "remove-entry")
    -- They left while the removal was in flight: a plain mark.
    if stateOf stored userId ≠ some .active ∧ departed.has userId = true then
      .ok (group, dropsHolder || held)
    else do
      refuseIf (stateOf stored userId ≠ some .active)
        (.membersChanged "remove-target")
      .ok (revokeAccess (group.setMembership userId fun member =>
        { member with state := .removed }) userId, dropsHolder || held)
  else if change.status = .active then do
    refuseIf (stateOf stored userId ≠ some .active)
      (.membersChanged "entry-not-member")
    let roles := ((stored.get? userId).map Membership.roles).getD []
    let drops := held && !change.roles.contains .members
    if sameRoles roles change.roles then
      .ok (group, dropsHolder || drops)
    else do
      -- An entry re-keyed here may lose `members`, and only that.
      refuseIf
        (¬ (route = .roster ∧ change.rekeyed = true ∧
            sameRoles (roles.filter (· ≠ .members)) change.roles = true) ∧
          route ≠ .member userId)
        (.invalid "role-change")
      .ok (group.setMembership userId fun member =>
        { member with roles := change.roles }, dropsHolder || drops)
  else do
    refuseIf
      (stateOf stored userId = some .active ∨
        (stateOf stored userId = some .accepted ∧ departed.has userId = false))
      (.invalid "entry-left")
    .ok (group, dropsHolder || (departed.has userId && held))

/-- A route's person must be among what its roster changes. -/
def requireTarget (route : ChainRoute) (changes : List EntryChange) :
    Except Refusal Unit :=
  match route.target with
  | some userId =>
    refuseIf (userId ∉ changes.map EntryChange.userId)
      (.invalid (route.kind ++ "-entry"))
  | none => .ok ()

/--
The projection of a roster's changes under its route's policy, and whether it
drops a holder by the server's own account.
-/
def applyRoster
    (departed : OrderedMap String Bool)
    (route : ChainRoute)
    (changes : List EntryChange)
    (group : Group) : Except Refusal (Group × Bool) := do
  refuseIf (¬ (changes.map EntryChange.userId).Nodup) (.invalid "changes")
  requireTarget route changes
  let (after, dropsHolder) ←
    foldEach (applyChange group.memberships departed route) (group, false)
      changes
  refuseIf
    (∀ userId ∈ listActiveMemberIds after, after.holds userId .members = false)
    (.invalid "no-holder")
  refuseIf
    (∀ userId ∈ listActiveMemberIds after, after.holds userId .billing = false)
    (.invalid "no-billing")
  .ok (after, dropsHolder)

/-- A roster as its checks read it. -/
structure ParsedRoster where
  roster : Roster
  digest : String
  changes : List EntryChange
  dropsHolder : Bool

/-- A succession as its checks read it. -/
structure ParsedSuccession where
  oldVersion : Nat
  newVersion : Nat
  lastRosterVersion : Nat
  lastRosterDigest : String
  signerUserId : String
  deriving DecidableEq, Repr

/-- What a write of the chain is given. -/
structure ChainInput where
  uploader : String
  expectedRevision : Nat
  route : ChainRoute
  roster : Option ParsedRoster
  succession : Option ParsedSuccession
  seals : List SealInput
  /-- Whether what other tables answer refuses it. -/
  elsewhere : Bool

/-- The roster's place is the one after the head, and it names the head. -/
def checkHead (group : Group) (parsed : ParsedRoster) :
    Except Refusal Unit :=
  refuseIf
    (parsed.roster.rosterVersion ≠ group.head.rosterVersion + 1 ∨
      parsed.roster.previousRosterDigest ≠ group.rosterDigest ∨
      parsed.roster.groupKeyVersion ≠ group.groupKeyVersion)
    (.invalid "roster-head")

/-- Who an admission admits must be waiting. -/
def checkAdmission (group : Group) (route : ChainRoute) :
    Except Refusal Unit :=
  match route with
  | .admission userId =>
    refuseIf (stateOf group.memberships userId ≠ some .accepted) .notPending
  | _ => .ok ()

/-- The departures a roster does not mark left. -/
def pendingOf (group : Group) (changes : List EntryChange) : List String :=
  group.departures.keys.filter fun userId =>
    !changes.any fun change =>
      change.userId = userId && change.status = .left

/-- The roster's part of a write: every departure marked, then projected. -/
def appendRoster
    (group : Group)
    (route : ChainRoute)
    (succession : Option ParsedSuccession)
    (parsed : ParsedRoster) : Except Refusal Group := do
  refuseIf (group.successionDue = true) .successionDue
  checkHead group parsed
  checkAdmission group route
  let pending := pendingOf group parsed.changes
  refuseIf (pending ≠ []) (.leftDue (sortBy id pending))
  let (after, dropsHolder) ←
    applyRoster group.departures route parsed.changes group
  refuseIf (dropsHolder ≠ parsed.dropsHolder) (.invalid "drops-holder")
  refuseIf (dropsHolder = true ∧ succession = none)
    (.invalid "succession-required")
  .ok { after with
    departures := .empty
    head := parsed.roster
    rosterDigest := parsed.digest
    successionDue := dropsHolder }

/-- The succession's part of a write: the key replaced, tied to the head. -/
def appendSuccession (group : Group) (succession : ParsedSuccession) :
    Except Refusal Group := do
  refuseIf
    (succession.oldVersion ≠ group.groupKeyVersion ∨
      succession.newVersion ≠ succession.oldVersion + 1 ∨
      succession.lastRosterVersion ≠ group.head.rosterVersion ∨
      succession.lastRosterDigest ≠ group.rosterDigest)
    (.invalid "succession-head")
  .ok { group with
    groupKeyVersion := succession.newVersion, successionDue := false }

/-- A part of a write the call may lack. -/
def appendPart
    (append : Group → π → Except Refusal Group)
    (part : Option π)
    (group : Group) : Except Refusal Group :=
  match part with
  | some part => append group part
  | none => .ok group

/-- What a call's route says of its shape. -/
def checkShape (input : ChainInput) : Except Refusal Unit := do
  refuseIf
    (if input.route = .succession then
        input.roster.isSome = true ∨ input.succession = none
      else input.roster.isNone = true)
    (.invalid "route-shape")
  refuseIf
    (input.route = .retire ∧
      ((∃ parsed ∈ input.roster, parsed.changes ≠ []) ∨
        input.succession.isSome = true ∨ input.seals ≠ []))
    (.invalid "area-delete")
  refuseIf
    ((∃ parsed ∈ input.roster, parsed.roster.signerUserId ≠ input.uploader) ∨
      ∃ succession ∈ input.succession,
        succession.signerUserId ≠ input.uploader)
    .forbidden

/-- A write of the chain, under the group's lock. -/
def appendChain (group : Group) (input : ChainInput) :
    Except Refusal Group := do
  checkShape input
  lockGroup group
  requireHolder group input.uploader
  refuseIf (input.elsewhere = true) .elsewhere
  refuseIf (group.chainRevision ≠ input.expectedRevision) .stale
  let group ← appendPart
    (fun group => appendRoster group input.route input.succession)
    input.roster group
  let group ← appendPart appendSuccession input.succession group
  let group ← upsertSeals input.uploader true group.groupKeyVersion
    input.seals group
  .ok { group with chainRevision := group.chainRevision + 1 }

/-- Seals outside the chain: by an active member, who holds `members`. -/
def storeSeals
    (group : Group)
    (uploader : String)
    (seals : List SealInput) : Except Refusal Group := do
  lockGroup group
  let roles ← uploaderRoles group uploader
  refuseIf (seals ≠ [] ∧ roles.contains .members = false) .forbidden
  upsertSeals uploader (roles.contains .members) group.groupKeyVersion seals
    group

/-- Whether someone has a seal of the group's current key. -/
def Group.sealed (group : Group) (userId : String) : Bool :=
  group.seals.has (group.groupKeyVersion, userId)

/-- The other active members. -/
def othersOf (group : Group) (userId : String) : List String :=
  (listActiveMemberIds group).filter (· ≠ userId)

/-- What keeps an active member from leaving while others remain. -/
def blocker (group : Group) (roles : List GroupRole) (others : List String) :
    Except Refusal Unit := do
  refuseIf
    (roles.contains .billing = true ∧
      ∀ other ∈ others, group.holds other .billing = false)
    .organizer
  -- Another holder counts only with a seal of the current group key.
  refuseIf
    (roles.contains .members = true ∧
      ∀ other ∈ others,
        (group.holds other .members && group.sealed other) = false)
    .lastHolder

/-- A member's state when they go. -/
def leave (group : Group) (userId : String) : Group :=
  group.setMembership userId fun member => { member with state := .left }

/--
A departure: someone still waiting withdraws; the last active member dissolves
the group; anyone else loses their access and is due to be marked left.
-/
def depart (group : Group) (userId : String) (elsewhere : Bool) :
    Except Refusal Group :=
  match group.memberships.get? userId with
  | none => .error .notMember
  | some membership =>
    match membership.state with
    | .left => .error .notMember
    | .removed => .error .notMember
    | .accepted => .ok (leave group userId)
    | .active => do
        -- The payer's plan, or one still billed.
        refuseIf (elsewhere = true) .elsewhere
        let others := othersOf group userId
        if others = [] then
          .ok { revokeAccess (leave group userId) userId with
            dissolved := true }
        else do
          blocker group membership.roles others
          let gone := revokeAccess (leave group userId) userId
          .ok { gone with
            departures :=
              match gone.departures.get? userId with
              | some _ => gone.departures
              | none => gone.departures.set userId
                  (membership.roles.contains .members) }

/-- A member leaves; a decline withdraws only someone still waiting. -/
def leaveGroup
    (group : Group)
    (userId : String)
    (mustDissolve onlyAccepted elsewhere : Bool) :
    Except Refusal Group := do
  lockGroup group
  refuseIf (onlyAccepted = true ∧ group.isActive userId = true) .admitted
  let after ← depart group userId elsewhere
  refuseIf (mustDissolve = true ∧ after.dissolved = false) .notLast
  .ok after

/-- A holder turns down someone who accepted but was not admitted. -/
def declinePending (group : Group) (holder userId : String) :
    Except Refusal Group := do
  lockGroup group
  requireHolder group holder
  refuseIf (stateOf group.memberships userId ≠ some .accepted) .notPending
  .ok (group.setMembership userId fun member =>
    { member with state := .removed })

/-- An open invitation is taken by the account it names. -/
def acceptInvitation
    (group : Group)
    (userId : String)
    (invitationRoles : List GroupRole)
    (elsewhere : Bool) : Except Refusal Group := do
  lockGroup group
  refuseIf (group.isActive userId = true) .alreadyMember
  refuseIf (elsewhere = true) .elsewhere
  .ok { group with
    memberships := group.memberships.set userId
      { state := .accepted, roles := [], invitationRoles } }

/-- The account's row goes, and with it every row that names it. -/
def cascade (group : Group) (userId : String) : Group :=
  { revokeAccess group userId with
    memberships := group.memberships.erase userId }

/-- Whether a deletion lists the group: they are active or waiting in it. -/
def listsGroup (group : Group) (userId : String) : Bool :=
  stateOf group.memberships userId = some .active ||
    stateOf group.memberships userId = some .accepted

/--
A deletion's end: a group it listed is departed, where that is not refused,
and then the account's row goes.
-/
def deleteAccount
    (group : Group)
    (userId : String)
    (listed elsewhere : Bool) : Except Refusal Group :=
  if listed = true ∧ group.dissolved = false then
    match depart group userId elsewhere with
    | .ok departed => .ok (cascade departed userId)
    | .error .notMember => .ok (cascade group userId)
    | .error refusal => .error refusal
  else
    .ok (cascade group userId)

/-- A new group: its first roster lists its creator alone. -/
def createGroup (creatorUserId : String) (parsed : ParsedRoster)
    (keySeal : SealInput) : Except Refusal Group := do
  refuseIf (parsed.roster.signerUserId ≠ creatorUserId) .forbidden
  match parsed.changes with
  | [creator] => do
      refuseIf
        (parsed.roster.rosterVersion ≠ 1 ∨
          parsed.roster.previousRosterDigest ≠ "" ∨
          parsed.roster.groupKeyVersion ≠ 1 ∨ parsed.dropsHolder = true ∨
          creator.userId ≠ creatorUserId ∨ creator.status ≠ .active ∨
          creator.roles.contains .members = false ∨
          creator.roles.contains .billing = false)
        (.invalid "first-roster")
      refuseIf (keySeal.holderUserId ≠ creatorUserId) (.invalid "seal-holder")
      upsertSeals creatorUserId true 1 [keySeal]
        { head := parsed.roster
          rosterDigest := parsed.digest
          groupKeyVersion := 1
          chainRevision := 1
          successionDue := false
          dissolved := false
          memberships := OrderedMap.empty.set creatorUserId
            { state := .active, roles := creator.roles, invitationRoles := [] }
          departures := .empty
          seals := .empty }
  | _ => .error (.invalid "first-roster")

end Groups

end HushOS
