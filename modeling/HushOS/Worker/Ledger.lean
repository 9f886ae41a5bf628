import HushOS.Acceptance.History
import HushOS.Toolkit.Slots
import HushOS.Worker.Vault

namespace HushOS

open Toolkit

namespace Worker

/-!
# The worker's ledger

The worker keeps every workspace and node key a session opened, and, for the
areas of families, the version each is written under.  It is handed every
chain a session commits and every area key a grant opened; a family's chain
alone moves the areas opened under that family.
-/

def KEYS_CHANGED : CryptoError :=
  ⟨"This folder’s keys changed. Reload to continue."⟩

def NOT_CHECKED_KEYS : CryptoError :=
  ⟨"Couldn’t check this folder’s keys. Reload to continue."⟩

def KEY_CHANGE_PENDING : CryptoError :=
  ⟨"This folder’s keys changed: the key change has not reached it yet."⟩

def OLDER_CHAIN : CryptoError :=
  ⟨"This device already holds a later member list for this family. Sync again."⟩

def SPLIT_CHAIN : CryptoError :=
  ⟨"This family’s member list was shown differently to this device."⟩

def GUARD_NOT_KEPT : CryptoError :=
  ⟨"HushOS couldn’t save this on this device. Free up some space, then try again."⟩

def NO_CHAIN : CryptoError :=
  ⟨"Check the family’s member list first."⟩

def NOT_THE_FAMILYS : CryptoError :=
  ⟨"This folder does not belong to the family."⟩

def NOT_LISTED : CryptoError :=
  ⟨"This folder is not on the family’s member list."⟩

def FAMILY_FOLDER : CryptoError :=
  ⟨"This was refused: it is a family folder."⟩

def RETIRED : CryptoError :=
  ⟨"This family folder was deleted: it cannot be used again."⟩

def NOT_LISTED_VERSION : CryptoError :=
  ⟨"This area key version is not on the group’s member list."⟩

def NOT_LISTED_ROOT : CryptoError :=
  ⟨"This folder’s key is not the one the group’s member list names."⟩

/-- A chain this device accepted, and nothing else. -/
abbrev Accepted (P : Primitives) : Type :=
  { chain : ChainBody // ∃ history, P.History chain history }

/-- A node's key as held; `own` when the device itself opened it as current. -/
structure HeldKey where
  key : Key
  epoch : Nat
  own : Bool := false
  deriving DecidableEq, Repr

/-- A walk's fresh key and the one it replaces, not confirmed yet. -/
structure PendingKey where
  fresh : Key
  epoch : Nat
  old : Key
  oldEpoch : Nat
  rootedAt : Option Nat
  deriving DecidableEq, Repr

/-- Every key version opened of a workspace, and the newest. -/
structure WorkspaceKeys where
  current : Nat
  keys : OrderedMap Nat Key

/-- Why a group area may not be written. -/
inductive AreaBlock where
  | noGrantAtLatest
  | serverBehind
  | serverAhead
  | rootUnknown
  | rootBehind
  deriving DecidableEq, Repr

/--
Everything the worker holds.  Node maps are keyed by workspace and node, area
maps by family and workspace, each pair as one text.
-/
structure Ledger (V : Vault) where
  workspaceKeys : OrderedMap String WorkspaceKeys
  ownNodeKeys : OrderedMap String HeldKey
  guestNodeKeys : OrderedMap String HeldKey
  lineage : OrderedMap String (Option Nat)
  ownPrevNodeKeys : OrderedMap String HeldKey
  guestPrevNodeKeys : OrderedMap String HeldKey
  pendingNodeKeys : OrderedMap String PendingKey
  rootOpenedUnder : OrderedMap String Nat
  chains : OrderedMap String (Accepted V.toPrimitives)
  floors : OrderedMap String (Accepted V.toPrimitives)
  opened : OrderedMap String (OrderedMap String Nat)
  areaWrite : OrderedMap String Nat
  blocked : OrderedMap String AreaBlock
  guardOwed : Finset String
  rootSeenAt : OrderedMap String Nat
  rootIds : OrderedMap String String
  personal : Finset String

/-- A new ledger. -/
def createAreaLedger (V : Vault) : Ledger V where
  workspaceKeys := .empty
  ownNodeKeys := .empty
  guestNodeKeys := .empty
  lineage := .empty
  ownPrevNodeKeys := .empty
  guestPrevNodeKeys := .empty
  pendingNodeKeys := .empty
  rootOpenedUnder := .empty
  chains := .empty
  floors := .empty
  opened := .empty
  areaWrite := .empty
  blocked := .empty
  guardOwed := ∅
  rootSeenAt := .empty
  rootIds := .empty
  personal := ∅

/-- A node's place in a workspace. -/
def slot (workspaceId nodeId : String) : String :=
  slashed workspaceId nodeId

/-- An area's place in a family. -/
def areaSlot (groupId workspaceId : String) : String :=
  slashed groupId workspaceId

/-- Whether a place is one of a workspace's, or of a family's. -/
def isUnder (owner place : String) : Bool :=
  begins place (slashed owner "")

section

variable {P : Primitives}

/-- The commitments a chain lists for an area. -/
def areaCommitments (chain : Accepted P) (workspaceId : String) :
    Option (List String) :=
  if isUuid workspaceId then chain.val.areaKeys.get? workspaceId else none

/-- The commitment a chain lists for an area at a key version. -/
def listedArea (chain : Accepted P) (workspaceId : String) (version : Nat) :
    Option String :=
  if version < 1 then
    none
  else
    (areaCommitments chain workspaceId).bind fun listed =>
      listed[version - 1]?

/-- The key version an area is written under: none unlisted or retired. -/
def areaWriteVersion (chain : Accepted P) (workspaceId : String) :
    Option Nat :=
  if chain.val.retiredAreas.contains workspaceId then
    none
  else
    (areaCommitments chain workspaceId).map List.length

/-- Why a chain may not be committed over one held, if it may not. -/
def overtakenBy (held chain : Accepted P) : Option CryptoError :=
  if chain.val.roster.rosterVersion < held.val.roster.rosterVersion then
    some OLDER_CHAIN
  else if chain.val.rosterDigests[held.val.roster.rosterVersion - 1]? ≠
      some held.val.rosterDigest then
    some SPLIT_CHAIN
  else if chain.val.groupKeyVersion < held.val.groupKeyVersion then
    some OLDER_CHAIN
  else
    match chain.val.groupKeys[held.val.groupKeyVersion - 1]? with
    | none => some SPLIT_CHAIN
    | some key =>
      if sameGroupKey key held.val.groupKey then none else some SPLIT_CHAIN

end

/--
Whether an area root's key is the one a chain committed to at a version: false
where a format 1 roster listed the version and so committed to no root.
-/
def checkAreaRoot
    {V : Vault}
    (chain : Accepted V.toPrimitives)
    (workspaceId : String)
    (version : Nat)
    (rootKey : Key) :
    Except CryptoError Bool := do
  let _ ← integer (.number version) "workspace key version"
  refuseIf (chain.val.retiredAreas.contains workspaceId = true) RETIRED
  refuseIf ((listedArea chain workspaceId version).isNone = true)
    NOT_LISTED_VERSION
  match (chain.val.areaRoots.listAt workspaceId)[version - 1]? with
  | none => .error NOT_LISTED_ROOT
  | some none => .ok false
  | some (some listed) => do
      let commitment ← V.areaRootCommitment rootKey
      refuseIf (commitment ≠ listed) NOT_LISTED_ROOT
      .ok true

namespace Ledger

variable {V : Vault}

/-- The families that opened an area here. -/
def openedBy (ledger : Ledger V) (workspaceId : String) : List String :=
  (ledger.opened.entries.filter fun entry =>
    entry.2.has workspaceId).map Prod.fst

/-- How many committed chains list an area. -/
def listings (ledger : Ledger V) (workspaceId : String) : Nat :=
  ledger.chains.values.countP fun chain =>
    chain.val.areaKeys.has workspaceId

/-- The one family an area was opened under. -/
def familyOf (ledger : Ledger V) (workspaceId : String) : Option String :=
  match ledger.openedBy workspaceId with
  | [groupId] => some groupId
  | _ => none

/-- Whether an area's family has no chain committed now. -/
def heldBack (ledger : Ledger V) (workspaceId : String) : Bool :=
  (ledger.openedBy workspaceId).any fun groupId =>
    !ledger.chains.has groupId

/-- Whether a family opened a workspace here as one of its folders. -/
def openedByFamily (ledger : Ledger V) (workspaceId : String) : Bool :=
  (ledger.openedBy workspaceId).length > 0

/-- Whether a workspace is a group's area. -/
def isArea (ledger : Ledger V) (workspaceId : String) : Bool :=
  if workspaceId ∈ ledger.personal then
    false
  else
    0 < (ledger.openedBy workspaceId).length ||
      0 < ledger.listings workspaceId ||
      (ledger.areaWrite.keys ++ ledger.blocked.keys ++
        ledger.rootSeenAt.keys).any fun place =>
        finishes place (slashed "" workspaceId)

/-- The family and version an area is read under; none for no area. -/
def readAt (ledger : Ledger V) (workspaceId : String) :
    Except CryptoError (Option (String × Nat)) :=
  if ledger.isArea workspaceId then
    match ledger.familyOf workspaceId with
    | none => .error NOT_CHECKED_KEYS
    | some groupId =>
      match ledger.areaWrite.get? (areaSlot groupId workspaceId) with
      | none => .error NOT_CHECKED_KEYS
      | some version => .ok (some (groupId, version))
  else
    .ok none

/-- The version an area is read under; none for no area. -/
def readVersion (ledger : Ledger V) (workspaceId : String) :
    Except CryptoError (Option Nat) :=
  (ledger.readAt workspaceId).map fun at_ => at_.map Prod.snd

/-- The version an area is written under; none for no area. -/
def writeVersion (ledger : Ledger V) (workspaceId : String) :
    Except CryptoError (Option Nat) := do
  match ← ledger.readAt workspaceId with
  | none => .ok none
  | some (groupId, version) =>
    let place := areaSlot groupId workspaceId
    refuseIf (ledger.blocked.has place = true) KEYS_CHANGED
    let seen := ledger.rootSeenAt.get? place
    refuseIf ((seen.any fun seen => seen < version) = true)
      KEY_CHANGE_PENDING
    refuseIf (seen ≠ some version) KEYS_CHANGED
    .ok (some version)

/-- Why an area may not be written, if it may not. -/
def unwritable
    (ledger : Ledger V)
    (groupId workspaceId : String)
    (latest : Nat) :
    Option AreaBlock :=
  let place := areaSlot groupId workspaceId
  match ledger.blocked.get? place with
  | some reason => some reason
  | none =>
    match ledger.rootSeenAt.get? place with
    | none => some .rootUnknown
    | some seen => if seen = latest then none else some .rootBehind

/-- Refused for a family folder whose family owes its guard. -/
def requireGuardKept (ledger : Ledger V) (workspaceId : String) :
    Except CryptoError Unit :=
  refuseIf
    (((ledger.openedBy workspaceId).any fun groupId =>
      groupId ∈ ledger.guardOwed) = true)
    GUARD_NOT_KEPT

/-- The workspace key held at a version. -/
def workspaceKey (ledger : Ledger V) (workspaceId : String) (version : Nat) :
    Option Key :=
  (ledger.workspaceKeys.get? workspaceId).bind fun entry =>
    entry.keys.get? version

/-- Refuses a write into an area not found writable. -/
def requireWritable (ledger : Ledger V) (workspaceId : String) :
    Except CryptoError Unit := do
  ledger.requireGuardKept workspaceId
  match ← ledger.writeVersion workspaceId with
  | none => .ok ()
  | some version =>
    refuseIf ((ledger.workspaceKey workspaceId version).isNone = true)
      KEYS_CHANGED

/--
An area root a listing opened: whether its key may be held, and the root seen
at its version once the family's chain committed to its key there.
-/
def rootSeen
    (ledger : Ledger V)
    (workspaceId nodeId : String)
    (parentKeyEpoch : Nat)
    (rootKey : Key) :
    Bool × Ledger V :=
  if ledger.isArea workspaceId then
    match ledger.familyOf workspaceId with
    | none => (true, ledger)
    | some groupId =>
      match ledger.chains.get? groupId with
      | none => (true, ledger)
      | some chain =>
        let place := areaSlot groupId workspaceId
        match checkAreaRoot chain workspaceId parentKeyEpoch rootKey with
        | .error _ =>
          if ledger.rootSeenAt.get? place = some parentKeyEpoch ∨
              ledger.areaWrite.get? place = some parentKeyEpoch then
            (false,
              { ledger with
                rootSeenAt := ledger.rootSeenAt.erase place })
          else
            (false, ledger)
        | .ok _ =>
          -- An older root served again never lowers what was seen.
          let rootSeenAt :=
            if (ledger.rootSeenAt.get? place).all
                (fun seen => seen < parentKeyEpoch) then
              ledger.rootSeenAt.set place parentKeyEpoch
            else
              ledger.rootSeenAt
          -- Only a root at the write version names the root node.
          let rootIds :=
            if ledger.rootIds.has place = false ∧
                ledger.areaWrite.get? place = some parentKeyEpoch then
              ledger.rootIds.set place nodeId
            else
              ledger.rootIds
          (true, { ledger with rootSeenAt, rootIds })
  else
    (true, ledger)

/-- Whether a top-level row is another node than the area's root. -/
def notTheRoot (ledger : Ledger V) (workspaceId nodeId : String) : Bool :=
  match ledger.familyOf workspaceId with
  | none => false
  | some groupId =>
    (ledger.rootIds.get? (areaSlot groupId workspaceId)).any fun root =>
      root ≠ nodeId

/-- Refused unless a chain passes through the floor and the chain committed. -/
def checkCommit (ledger : Ledger V) (chain : Accepted V.toPrimitives) :
    Except CryptoError Unit :=
  forEach
    (fun held : Option (Accepted V.toPrimitives) =>
      match held.bind fun held => overtakenBy held chain with
      | none => .ok ()
      | some refusal => .error refusal)
    [ledger.floors.get? chain.val.groupId,
      ledger.chains.get? chain.val.groupId]

/-- One area's write version as a committed chain lists it. -/
def commitArea
    (chain : Accepted V.toPrimitives)
    (ledger : Ledger V)
    (workspaceId : String) :
    Ledger V :=
  let place := areaSlot chain.val.groupId workspaceId
  match areaWriteVersion chain workspaceId with
  | none =>
    { ledger with
      areaWrite := ledger.areaWrite.erase place
      rootSeenAt := ledger.rootSeenAt.erase place }
  | some version =>
    { ledger with areaWrite := ledger.areaWrite.set place version }

/-- Whether a family's floor moves to a chain. -/
def movesFloor
    (floor : Option (Accepted V.toPrimitives))
    (chain : Accepted V.toPrimitives) :
    Bool :=
  floor.all fun floor =>
    floor.val.roster.rosterVersion < chain.val.roster.rosterVersion ||
      floor.val.roster.rosterVersion = chain.val.roster.rosterVersion &&
        floor.val.groupKeyVersion < chain.val.groupKeyVersion

/-- A family's chain, committed: its areas are written as it lists them. -/
def commit (ledger : Ledger V) (chain : Accepted V.toPrimitives) :
    Except CryptoError (Ledger V) := do
  ledger.checkCommit chain
  let groupId := chain.val.groupId
  let floors :=
    if movesFloor (ledger.floors.get? groupId) chain then
      ledger.floors.set groupId chain
    else
      ledger.floors
  .ok (chain.val.areaKeys.keys.foldl (commitArea chain)
    { ledger with chains := ledger.chains.set groupId chain, floors })

/-- A refusal or a fork for a family: nothing of it is used meanwhile. -/
def uncommit (ledger : Ledger V) (groupId : String) : Ledger V :=
  { ledger with
    areaWrite := ledger.areaWrite.keep fun place => !isUnder groupId place
    chains := ledger.chains.erase groupId }

/-- Writes into a family wait for its guard to be stored. -/
def owe (ledger : Ledger V) (groupId : String) : Ledger V :=
  { ledger with guardOwed := insert groupId ledger.guardOwed }

/-- A family's guard is stored: writes go on. -/
def kept (ledger : Ledger V) (groupId : String) : Ledger V :=
  { ledger with guardOwed := ledger.guardOwed.erase groupId }

/-- A workspace's keys and every node key under it, dropped. -/
def dropWorkspace (ledger : Ledger V) (workspaceId : String) : Ledger V :=
  let others (place : String) : Bool := !isUnder workspaceId place
  { ledger with
    workspaceKeys := ledger.workspaceKeys.erase workspaceId
    ownNodeKeys := ledger.ownNodeKeys.keep others
    guestNodeKeys := ledger.guestNodeKeys.keep others
    ownPrevNodeKeys := ledger.ownPrevNodeKeys.keep others
    guestPrevNodeKeys := ledger.guestPrevNodeKeys.keep others
    rootOpenedUnder := ledger.rootOpenedUnder.keep others
    lineage := ledger.lineage.keep others
    pendingNodeKeys := ledger.pendingNodeKeys.keep others }

/-- The areas a family opened here. -/
def areasOf (ledger : Ledger V) (groupId : String) : List String :=
  ((ledger.opened.get? groupId).map OrderedMap.keys).getD []

/-- A family no longer read: its areas' keys and all known of it, dropped. -/
def forgetGroup (ledger : Ledger V) (groupId : String) : Ledger V :=
  let ledger :=
    (ledger.areasOf groupId).foldl dropWorkspace (ledger.kept groupId)
  let others (place : String) : Bool := !isUnder groupId place
  { ledger with
    areaWrite := ledger.areaWrite.keep others
    blocked := ledger.blocked.keep others
    rootSeenAt := ledger.rootSeenAt.keep others
    rootIds := ledger.rootIds.keep others
    opened := ledger.opened.erase groupId
    chains := ledger.chains.erase groupId
    floors := ledger.floors.erase groupId }

/-- Every family forgotten. -/
def forgetAllGroups (ledger : Ledger V) : Ledger V :=
  (ledger.chains.keys ++ ledger.opened.keys ++ ledger.floors.keys).dedup.foldl
    forgetGroup { ledger with guardOwed := ∅ }

/-- A workspace key held at a version. -/
def holdWorkspaceKey
    (ledger : Ledger V)
    (workspaceId : String)
    (version : Nat)
    (key : Key) :
    Ledger V :=
  let entry :=
    (ledger.workspaceKeys.get? workspaceId).getD
      { current := version, keys := .empty }
  { ledger with
    workspaceKeys := ledger.workspaceKeys.set workspaceId
      { current := max entry.current version
        keys := entry.keys.set version key } }

/-- Why an area is behind or ahead of its chain, if it is. -/
def blockOf (version latest served : Nat) : Option AreaBlock :=
  if version < latest then some .noGrantAtLatest
  else if served < latest then some .serverBehind
  else if latest < served then some .serverAhead
  else none

/-- An area key a grant opened, held under the family that lists it. -/
def openArea
    (ledger : Ledger V)
    (groupId workspaceId idSeed : String)
    (version : Nat)
    (key : Key)
    (served : Nat) :
    Except CryptoError (Option AreaBlock × Ledger V) := do
  let _ ← uuid (.text groupId) "group id"
  match ledger.chains.get? groupId with
  | none => .error NO_CHAIN
  | some chain => do
      let _ ← uuid (.text workspaceId) "workspace id"
      refuseIf (workspaceId ∈ ledger.personal) NOT_THE_FAMILYS
      refuseIf (V.checkId groupId idSeed workspaceId = false)
        NOT_THE_FAMILYS
      match areaWriteVersion chain workspaceId with
      | none => .error NOT_LISTED
      | some latest => do
          let listed := chain.val.areaKeys.listAt workspaceId
          refuseIf (version < 1) NOT_CHECKED_KEYS
          let commitment ← V.areaKeyCommitment key
          refuseIf (listed[version - 1]? ≠ some commitment) NOT_CHECKED_KEYS
          let areas := (ledger.opened.get? groupId).getD .empty
          let areas := areas.set workspaceId
            (max ((areas.get? workspaceId).getD 0) version)
          let held :=
            ({ ledger with
              opened := ledger.opened.set groupId areas }).holdWorkspaceKey
              workspaceId version key
          let place := areaSlot groupId workspaceId
          let blocked :=
            match blockOf version latest served with
            | some reason => held.blocked.set place reason
            | none => held.blocked.erase place
          let after := { held with blocked }
          .ok (after.unwritable groupId workspaceId latest, after)

/-- The account's own workspace, its key opened from its grant. -/
def openPersonalWorkspace
    (ledger : Ledger V)
    (workspaceId : String)
    (version : Nat)
    (key : Key) :
    Except CryptoError (Ledger V) := do
  refuseIf (ledger.openedByFamily workspaceId = true) FAMILY_FOLDER
  .ok
    (({ ledger with
      personal := insert workspaceId ledger.personal }).holdWorkspaceKey
      workspaceId version key)

/-- Every key dropped: a lock. -/
def clear (ledger : Ledger V) : Ledger V :=
  { ledger with
    workspaceKeys := .empty
    ownNodeKeys := .empty
    guestNodeKeys := .empty
    ownPrevNodeKeys := .empty
    guestPrevNodeKeys := .empty
    pendingNodeKeys := .empty
    rootOpenedUnder := .empty
    lineage := .empty
    personal := ∅ }

end Ledger

end Worker

end HushOS
