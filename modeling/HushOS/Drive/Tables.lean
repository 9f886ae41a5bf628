import HushOS.Toolkit.Tables

namespace HushOS

open Toolkit

namespace Drive

/-!
# The Drive tables

Rows of the Drive schema with the columns its writes read.  Envelopes and
signatures are opaque to the server and stand in no row here; a write that
checks a signature takes the answer of the check with its input.

Ids are uuids, compared by Postgres as 128-bit numbers; times are instants on
one clock; byte counters are signed, as the columns' arithmetic is.
-/

/-- A uuid. -/
abbrev Uuid := Nat

def MAX_DEPTH : Nat := 64

def WALK_CAP : Nat := 128

/-- `drive_nodes.kind`. -/
inductive NodeKind where
  | folder
  | file
  deriving DecidableEq

/-- `file_versions.status`. -/
inductive VersionStatus where
  | pending
  | ready
  | purged
  deriving DecidableEq

/-- `drive_objects.status`. -/
inductive ObjectStatus where
  | pending
  | ready
  | missing
  deriving DecidableEq

/-- `drive_uploads.status`. -/
inductive UploadStatus where
  | open_
  | completing
  | conflicted
  | completed
  | aborted
  deriving DecidableEq

/-- A row of `workspaces`; a personal one names no group. -/
structure Workspace where
  changeSeq : Nat
  keyEpochSeq : Nat
  workspaceKeyVersion : Nat
  tombstonesDroppedThrough : Nat
  groupId : Option Uuid
  deletedAt : Option Nat
  deriving DecidableEq

/-- A row of `workspace_storage`. -/
structure Storage where
  baseQuotaBytes : Int
  usedBytes : Int
  reservedBytes : Int
  deriving DecidableEq

/-- The previous key of a node while a rotation runs: its epoch and its parent's. -/
structure PrevKey where
  keyEpoch : Nat
  parentKeyEpoch : Nat
  deriving DecidableEq

/-- A row of `drive_nodes`. -/
structure Node where
  workspaceId : Uuid
  parentId : Option Uuid
  kind : NodeKind
  keyEpoch : Nat
  parentKeyEpoch : Nat
  prevKey : Option PrevKey
  metadataVersion : Nat
  currentVersionId : Option Uuid
  trashedAt : Option Nat
  removedAt : Option Nat
  heightBound : Nat
  /-- Null until the node is visible. -/
  changeSeq : Option Nat
  purgedAt : Option Nat
  /-- Where a tombstone stood when it went, root first. -/
  purgedAncestorIds : Option (List Uuid)
  deriving DecidableEq

/-- The key an object is stored under: its workspace and its id. -/
structure ObjectKey where
  workspaceId : Uuid
  objectId : Uuid
  deriving DecidableEq

/-- A row of `drive_objects`. -/
structure StoredObject where
  workspaceId : Uuid
  objectKey : ObjectKey
  contentSuite : Nat
  chunkSize : Nat
  chunkCount : Nat
  ciphertextSize : Nat
  status : ObjectStatus
  replicatedAt : Option Nat
  deriving DecidableEq

/-- A row of `file_versions`. -/
structure Version where
  nodeId : Uuid
  workspaceId : Uuid
  objectId : Option Uuid
  status : VersionStatus
  supersededAt : Option Nat
  deriving DecidableEq

/-- A move's source as begin found it, which completion holds it to. -/
structure MoveRecord where
  workspaceId : Uuid
  nodeId : Uuid
  versionId : Uuid
  changeSeq : Nat
  freedBytes : Int
  movedBy : Uuid
  deriving DecidableEq

/-- A row of `drive_uploads`. -/
structure Upload where
  workspaceId : Uuid
  nodeId : Uuid
  versionId : Uuid
  objectId : Option Uuid
  objectKey : ObjectKey
  keyEpoch : Nat
  expectedVersionId : Option Uuid
  newNode : Bool
  reservedBytes : Int
  expiresAt : Nat
  status : UploadStatus
  completingAt : Option Nat
  move : Option MoveRecord
  deriving DecidableEq

/-- A row of `drive_object_deletions`, the outbox of the store. -/
structure Deletion where
  workspaceId : Uuid
  objectKey : ObjectKey
  published : Bool
  replicated : Bool
  deriving DecidableEq

/-- A row of `drive_rotations`. -/
structure Rotation where
  workspaceId : Uuid
  nodeId : Uuid
  targetEpoch : Nat
  finishedAt : Option Nat
  deriving DecidableEq

/-- A row of `drive_shares`. -/
structure Share where
  workspaceId : Uuid
  nodeId : Uuid
  granterUserId : Uuid
  granteeUserId : Uuid
  keyEpoch : Nat
  editor : Bool
  /-- Its envelope is of the one suite still served. -/
  served : Bool
  revokedAt : Option Nat
  deriving DecidableEq

/-- Which way a node crossed a share's boundary. -/
inductive ShareEventKind where
  | entered
  | left
  deriving DecidableEq

/-- A row of `drive_share_events`. -/
structure ShareEvent where
  shareId : Uuid
  changeSeq : Nat
  nodeId : Uuid
  kind : ShareEventKind
  deriving DecidableEq

/-- A row of `group_memberships`. -/
structure Membership where
  groupId : Uuid
  userId : Uuid
  family : Bool
  active : Bool
  deriving DecidableEq

/-- A row of `group_holds`. -/
structure Hold where
  groupId : Uuid
  userId : Uuid
  expiresAt : Nat
  deriving DecidableEq

/-- A row of `workspace_keys`: who holds a workspace's key. -/
structure WorkspaceKey where
  userId : Uuid
  workspaceId : Uuid
  deriving DecidableEq

/-- A row of `group_storage`: a family's pool. -/
structure Pool where
  quotaBytes : Int
  expiresAt : Option Nat
  deriving DecidableEq

/-- A row of `storage_entitlements`. -/
structure Entitlement where
  workspaceId : Uuid
  quotaBytes : Int
  startsAt : Nat
  expiresAt : Option Nat
  revokedAt : Option Nat
  deriving DecidableEq

/-- What Drive reads of accounts, groups and billing and never writes. -/
structure Accounts where
  /-- Whether billing is on: the provider is not `none`. -/
  billing : Bool
  workspaceKeys : List WorkspaceKey
  memberships : List Membership
  holds : List Hold
  /-- The owner of each personal workspace, by its id. -/
  personalWorkspaces : OrderedMap Uuid Uuid
  /-- The groups that are companies (`org`). -/
  companies : List Uuid
  groupStorage : OrderedMap Uuid Pool
  entitlements : List Entitlement
  deriving DecidableEq

/-- The tables Drive reads and writes. -/
structure Database where
  workspaces : OrderedMap Uuid Workspace
  storage : OrderedMap Uuid Storage
  nodes : OrderedMap Uuid Node
  objects : OrderedMap Uuid StoredObject
  versions : OrderedMap Uuid Version
  uploads : OrderedMap Uuid Upload
  deletions : OrderedMap Uuid Deletion
  rotations : OrderedMap Uuid Rotation
  shares : OrderedMap Uuid Share
  shareEvents : List ShareEvent
  accounts : Accounts
  deriving DecidableEq

/-- An upload that still holds bytes: neither completed nor aborted. -/
def UploadStatus.live : UploadStatus → Bool
  | .open_ | .completing | .conflicted => true
  | .completed | .aborted => false

/-- The rows of one id. -/
def byId (id : Uuid) (key : Uuid) (_ : α) : Bool :=
  key = id

namespace Database

/-- `UPDATE drive_nodes ... WHERE id = id`. -/
def setNode (db : Database) (id : Uuid) (change : Node → Node) : Database :=
  { db with nodes := db.nodes.update (byId id) change }

/-- `UPDATE file_versions ... WHERE id = id`. -/
def setVersion
    (db : Database)
    (id : Uuid)
    (change : Version → Version) : Database :=
  { db with versions := db.versions.update (byId id) change }

/-- `UPDATE drive_uploads ... WHERE id = id`. -/
def setUpload
    (db : Database)
    (id : Uuid)
    (change : Upload → Upload) : Database :=
  { db with uploads := db.uploads.update (byId id) change }

/-- `UPDATE drive_objects ... WHERE id = id`. -/
def setObject
    (db : Database)
    (id : Uuid)
    (change : StoredObject → StoredObject) : Database :=
  { db with objects := db.objects.update (byId id) change }

/-- `UPDATE workspaces ... WHERE id = id`. -/
def setWorkspace
    (db : Database)
    (id : Uuid)
    (change : Workspace → Workspace) : Database :=
  { db with workspaces := db.workspaces.update (byId id) change }

/-- `adjustStorage`: the deltas a write makes to a workspace's counters. -/
def adjustStorage
    (db : Database)
    (workspaceId : Uuid)
    (used reserved : Int) : Database :=
  { db with
    storage := db.storage.update (byId workspaceId) fun row =>
      { row with
        usedBytes := row.usedBytes + used
        reservedBytes := row.reservedBytes + reserved } }

/-- A version's columns once it is purged. -/
def purgeVersionRow (db : Database) (versionId : Uuid) : Database :=
  db.setVersion versionId fun row => { row with status := .purged }

/-- The size of the object a row names, as the left join reads it. -/
def sizeOf (db : Database) (objectId : Option Uuid) : Option Nat :=
  (objectId.bind db.objects.get?).map StoredObject.ciphertextSize

/--
`DELETE FROM file_versions` for the rows that meet a condition: their uploads
go with them, and a node that has one current points at none.
-/
def deleteVersions
    (db : Database)
    (gone : Uuid → Version → Bool) : Database :=
  let dropped := db.versions.meetsAt gone
  { db with
    versions := db.versions.retain fun id row => !gone id row
    uploads := db.uploads.retain fun _ row => !dropped row.versionId
    nodes := db.nodes.update
      (fun _ row => (row.currentVersionId.map dropped).getD false)
      fun row => { row with currentVersionId := none } }

/--
`DELETE FROM drive_nodes` for the rows that meet a condition: their versions,
uploads, rotations and shares go with them, and a share's events with it.
-/
def deleteNodes (db : Database) (gone : Uuid → Node → Bool) : Database :=
  let dropped := db.nodes.meetsAt gone
  let rest := db.deleteVersions fun _ row => dropped row.nodeId
  { rest with
    nodes := rest.nodes.retain fun id _ => !dropped id
    uploads := rest.uploads.retain fun _ row => !dropped row.nodeId
    rotations := rest.rotations.retain fun _ row => !dropped row.nodeId
    shares := rest.shares.retain fun _ row => !dropped row.nodeId
    shareEvents := rest.shareEvents.filter fun event =>
      match rest.shares.get? event.shareId with
      | some share => !dropped share.nodeId
      | none => true }

/--
`retireObjectIfUnreferenced`: when a version's last reference to an object
goes, the object row is replaced by an outbox row; an outbox row that is there
already stays as it is.  Rows that still name the object name none.
-/
def retireObjectIfUnreferenced (db : Database) (objectId : Uuid) : Database :=
  if db.versions.exists_ fun _ row =>
      row.objectId = some objectId && row.status ≠ .purged then
    db
  else
    match db.objects.get? objectId with
    | none => db
    | some object =>
      { db with
        objects := db.objects.retain fun id _ => id ≠ objectId
        versions := db.versions.update
          (fun _ row => row.objectId = some objectId)
          fun row => { row with objectId := none }
        uploads := db.uploads.update
          (fun _ row => row.objectId = some objectId)
          fun row => { row with objectId := none }
        deletions :=
          if db.deletions.has objectId then
            db.deletions
          else
            db.deletions.set objectId
              { workspaceId := object.workspaceId
                objectKey := object.objectKey
                published := object.status = .ready
                replicated := object.replicatedAt.isSome } }

/-- `retireObjectIfUnreferenced` where a row may name no object. -/
def retireNamed (db : Database) : Option Uuid → Database
  | none => db
  | some objectId => db.retireObjectIfUnreferenced objectId

end Database

end Drive

end HushOS
