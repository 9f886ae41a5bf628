import HushOS.Acceptance.Rules
import HushOS.Groups.Projecting
import HushOS.Toolkit.Runs

namespace HushOS

open Toolkit

namespace Groups

/-!
# Calls on a group

A call reads the stored chain, checks its roster as every device will, reads
who is active, checks its seals, and only then takes the group's lock.
Departures, deletions and other calls land between any two of these.
-/

/-- What a roster keeps of the entry rules after the head. -/
structure Follows (head next : Roster) : Prop where
  kind : next.kind = head.kind
  version : next.rosterVersion = head.rosterVersion + 1
  holder : activeWith (rosterEntry head next.signerUserId) .members = true
  stays : active (rosterEntry next next.signerUserId) = true
  keeps : ∃ entry ∈ next.members, activeWith (some entry) .members = true
  entries : (checkEntries head next).isOk = true

instance (head next : Roster) : Decidable (Follows head next) :=
  decidable_of_iff
    ((next.kind = head.kind ∧
        next.rosterVersion = head.rosterVersion + 1) ∧
      activeWith (rosterEntry head next.signerUserId) .members = true ∧
      active (rosterEntry next next.signerUserId) = true ∧
      (∃ entry ∈ next.members, activeWith (some entry) .members = true) ∧
      (checkEntries head next).isOk = true)
    ⟨fun ⟨⟨kind, version⟩, holder, stays, keeps, entries⟩ =>
        ⟨kind, version, holder, stays, keeps, entries⟩,
      fun follows => ⟨⟨follows.kind, follows.version⟩, follows.holder,
        follows.stays, follows.keeps, follows.entries⟩⟩

/-- A roster that was read from bytes, and so keeps the field rules. -/
abbrev ReadRoster : Type := { roster : Roster // roster.Valid }

/-- The stored chain as a call read it. -/
structure StoredChain where
  roster : Roster
  rosterDigest : String
  groupKeyVersion : Nat
  revision : Nat
  successionDue : Bool

/-- A call under way: the chain it read, and who was active then or since. -/
structure Reading where
  chain : StoredChain
  active : List String

/-- What the stored chain holds now. -/
def storedChain (group : Group) : StoredChain where
  roster := group.head
  rosterDigest := group.rosterDigest
  groupKeyVersion := group.groupKeyVersion
  revision := group.chainRevision
  successionDue := group.successionDue

/-- A roster route's call. -/
structure RosterCall where
  uploader : String
  expectedRevision : Nat
  route : ChainRoute
  roster : ReadRoster
  digest : String
  succession : Option ParsedSuccession
  seals : List SealInput
  elsewhere : Bool

/-- A succession's own call. -/
structure SuccessionCall where
  uploader : String
  expectedRevision : Nat
  succession : ParsedSuccession
  seals : List SealInput

/-- A roster as its checks against the chain leave it. -/
def checkRoster
    (chain : StoredChain)
    (uploader : String)
    (roster : Roster)
    (digest : String) : Except Refusal ParsedRoster := do
  refuseIf (roster.signerUserId ≠ uploader) .forbidden
  refuseIf (¬ Follows chain.roster roster) (.invalid "roster-chain")
  .ok
    { roster
      digest
      changes := changesOf chain.roster roster
      dropsHolder := dropsHolder chain.roster roster }

/-- A succession's checks against a roster and its key; the new version. -/
def checkSuccession
    (head : Roster)
    (groupKeyVersion : Nat)
    (uploader : String)
    (succession : ParsedSuccession) : Except Refusal Nat := do
  refuseIf (succession.signerUserId ≠ uploader) .forbidden
  refuseIf
    (succession.oldVersion ≠ groupKeyVersion ∨
      succession.newVersion ≠ succession.oldVersion + 1 ∨
      activeWith (rosterEntry head succession.signerUserId) .members = false)
    (.invalid "succession-chain")
  .ok succession.newVersion

/-- Each seal is to a holder of the head, as its entry names them. -/
def checkSeals
    (head : Roster)
    (groupKeyVersion : Nat)
    (seals : List SealInput) : Except Refusal Unit :=
  forEach
    (fun given : SealInput => do
      let holder := rosterEntry head given.holderUserId
      refuseIf
        (activeWith holder .members = false ∨
          holder.map RosterMember.keyVersion ≠ some given.holderKeyVersion)
        (.membersChanged "seal-holder")
      refuseIf (given.groupKeyVersion ≠ groupKeyVersion)
        (.invalid "seal-key-version"))
    seals

/-- The head's holders among the members and whom the call admits. -/
def holdersOf
    (head : Roster)
    (active : List String)
    (admitted : Option String) : List String :=
  (head.members.filter fun entry =>
      activeWith (some entry) .members &&
        (active.contains entry.userId ||
          admitted = some entry.userId)).map RosterMember.userId

/-- A new group key's seals go to exactly the holders there are. -/
def requireSealsCoverHolders
    (head : Roster)
    (seals : List SealInput)
    (groupKeyVersion : Nat)
    (active : List String)
    (admitted : Option String) : Except Refusal Unit :=
  let sealed := (seals.filter fun given =>
    given.groupKeyVersion = groupKeyVersion).map SealInput.holderUserId
  refuseIf (sortBy id (holdersOf head active admitted) ≠ sortBy id sealed)
    (.invalid "succession-seals")

/-- Everyone newly given `members` gets the current key in the same call. -/
def requireHolderSeals
    (previous next : Roster)
    (seals : List SealInput)
    (groupKeyVersion : Nat) : Except Refusal Unit :=
  forEach
    (fun entry =>
      refuseIf
        (activeWith (some entry) .members = true ∧
          activeWith (rosterEntry previous entry.userId) .members = false ∧
          (seals.any fun given => given.holderUserId = entry.userId &&
            given.groupKeyVersion = groupKeyVersion) = false)
        (.invalid "holder-seal"))
    next.members

/-- Whom a route admits. -/
def ChainRoute.admitted : ChainRoute → Option String
  | .admission userId => some userId
  | _ => none

/-- A call's own part where it carries a succession, and its key version. -/
def keyVersionAfter
    (chain : StoredChain)
    (call : RosterCall) : Except Refusal Nat :=
  match call.succession with
  | some succession =>
    checkSuccession call.roster.val chain.groupKeyVersion call.uploader
      succession
  | none => .ok chain.groupKeyVersion

/-- Where a call carries a succession, its seals cover the holders. -/
def requireNewKeySealed
    (reading : Reading)
    (call : RosterCall)
    (keyVersion : Nat) : Except Refusal Unit :=
  if call.succession.isSome then
    requireSealsCoverHolders call.roster.val call.seals keyVersion
      reading.active call.route.admitted
  else
    .ok ()

/-- Every roster route: its checks against what it read, then the write. -/
def writeChain (group : Group) (reading : Reading) (call : RosterCall) :
    Except Refusal Group := do
  let chain := reading.chain
  refuseIf (chain.revision ≠ call.expectedRevision) .stale
  refuseIf (chain.successionDue = true) .successionDue
  refuseIf (call.route = .succession) (.invalid "route-shape")
  let parsed ← checkRoster chain call.uploader call.roster.val call.digest
  let keyVersion ← keyVersionAfter chain call
  checkSeals call.roster.val keyVersion call.seals
  requireNewKeySealed reading call keyVersion
  requireHolderSeals chain.roster call.roster.val call.seals keyVersion
  appendChain group
    { uploader := call.uploader
      expectedRevision := call.expectedRevision
      route := call.route
      roster := some parsed
      succession := call.succession
      seals := call.seals
      elsewhere := call.elsewhere }

/-- A succession on its own, with its seals to every holder. -/
def postSuccession
    (group : Group)
    (reading : Reading)
    (call : SuccessionCall) : Except Refusal Group := do
  let chain := reading.chain
  refuseIf (chain.revision ≠ call.expectedRevision) .stale
  let keyVersion ←
    checkSuccession chain.roster chain.groupKeyVersion call.uploader
      call.succession
  checkSeals chain.roster keyVersion call.seals
  requireSealsCoverHolders chain.roster call.seals keyVersion reading.active
    none
  appendChain group
    { uploader := call.uploader
      expectedRevision := call.expectedRevision
      route := .succession
      roster := none
      succession := some call.succession
      seals := call.seals
      elsewhere := false }

/-- Seals on their own, checked against the chain the call read. -/
def putKeySeals
    (group : Group)
    (reading : Reading)
    (uploader : String)
    (seals : List SealInput) : Except Refusal Group := do
  checkSeals reading.chain.roster reading.chain.groupKeyVersion seals
  storeSeals group uploader seals

/-- A group with the calls and the account deletions under way. -/
structure World where
  group : Group
  calls : OrderedMap Nat Reading
  deletions : OrderedMap Nat (String × Bool)
  gone : List String

/-- One step of anyone. -/
inductive Move where
  | read (number : Nat)
  | list (number : Nat)
  | write (number : Nat) (call : RosterCall)
  | succeed (number : Nat) (call : SuccessionCall)
  | putKeySeals (number : Nat) (uploader : String) (seals : List SealInput)
  | accept (userId : String) (invitationRoles : List GroupRole)
      (elsewhere : Bool)
  | decline (holder userId : String)
  | leave (userId : String) (mustDissolve onlyAccepted elsewhere : Bool)
  | delete (number : Nat) (userId : String)
  | finish (number : Nat) (elsewhere : Bool)

/-- What a move answers of the group. -/
def World.attempt (world : World) : Move → Except Refusal Group
  | .read _ => .ok world.group
  | .list _ => .ok world.group
  | .write number call =>
    match world.calls.get? number with
    | some reading => writeChain world.group reading call
    | none => .error .stale
  | .succeed number call =>
    match world.calls.get? number with
    | some reading => postSuccession world.group reading call
    | none => .error .stale
  | .putKeySeals number uploader seals =>
    match world.calls.get? number with
    | some reading => Groups.putKeySeals world.group reading uploader seals
    | none => .error .stale
  | .accept userId invitationRoles elsewhere =>
    if userId ∈ world.gone then .error .emailMismatch
    else acceptInvitation world.group userId invitationRoles elsewhere
  | .decline holder userId => declinePending world.group holder userId
  | .leave userId mustDissolve onlyAccepted elsewhere =>
    leaveGroup world.group userId mustDissolve onlyAccepted elsewhere
  | .delete _ _ => .ok world.group
  | .finish number elsewhere =>
    match world.deletions.get? number with
    | some (userId, listed) =>
      if userId ∈ world.gone then .error .notMember
      else deleteAccount world.group userId listed elsewhere
    | none => .error .notMember

/-- What a move changes beside the group. -/
def World.record (world : World) : Move → World
  | .read number =>
    { world with
      calls := world.calls.set number
        { chain := storedChain world.group
          active := listActiveMemberIds world.group } }
  | .list number =>
    { world with
      calls := world.calls.update (fun key _ => key = number)
        fun reading =>
          { reading with active := listActiveMemberIds world.group } }
  | .delete number userId =>
    { world with
      deletions := world.deletions.set number
        (userId, listsGroup world.group userId) }
  | .finish number elsewhere =>
    match world.deletions.get? number,
        world.attempt (.finish number elsewhere) with
    | some (userId, _), .ok _ =>
      { world with
        deletions := world.deletions.erase number
        gone := userId :: world.gone }
    | _, _ => { world with deletions := world.deletions.erase number }
  | _ => world

/-- One step: what it answers of the group, where it is not refused. -/
def World.step (world : World) (move : Move) : World :=
  match world.attempt move with
  | .ok group => { world.record move with group }
  | .error _ => world.record move

/-- The states after a run of steps. -/
abbrev World.run (world : World) (moves : List Move) : World :=
  Runs.run World.step world moves

/-- A family just made, with nothing under way. -/
def World.start (group : Group) : World where
  group := group
  calls := .empty
  deletions := .empty
  gone := []

/--
An account's deletion that ends without having listed the group finds its
account no active member.
-/
def World.Departs (world : World) : Move → Prop
  | .finish number _ =>
    ∀ userId, world.deletions.get? number = some (userId, false) →
      userId ∉ world.gone → world.group.dissolved = false →
        world.group.isActive userId = false
  | _ => True

/-- A first roster as its checks read it: every entry is a change. -/
def firstRoster (roster : Roster) (digest : String) : ParsedRoster where
  roster := roster
  digest := digest
  changes := roster.members.map fun entry =>
    { userId := entry.userId
      status := entry.status
      roles := entry.roles
      rekeyed := false }
  dropsHolder := false

/-- A new family: its first roster, and its key sealed to its creator. -/
def createFamily (userId : String) (roster : ReadRoster) (digest : String) :
    Except Refusal Group := do
  refuseIf
    (roster.val.kind ≠ .family ∨ roster.val.signerUserId ≠ userId)
    (.invalid "roster-group")
  match rosterEntry roster.val userId with
  | some entry => do
      let keySeal : SealInput :=
        { groupKeyVersion := 1
          holderUserId := userId
          holderKeyVersion := entry.keyVersion
          sealerUserId := userId }
      checkSeals roster.val 1 [keySeal]
      createGroup userId (firstRoster roster.val digest) keySeal
  | none => .error (.invalid "creator-identity")

end Groups

end HushOS
