import HushOS.Drive.Sound

namespace HushOS

open Toolkit

namespace Drive

/-!
# The changes writes are made of

A write is a few changes one after the other: each leaves sound tables sound,
and every invariant of a run is proved change by change.  `Change` says once
what the tables may become and what was checked before; `Care` names what a
run may ask on top of those checks.
-/

/-- What a run may ask of the writes in it. -/
structure Care where
  /-- A node's row goes only once every version on it is purged. -/
  spares : Prop
  /-- A node people see never goes without a tombstone. -/
  hides : Prop
  /-- A node is first shown within the depth, its ancestors raised. -/
  shallow : Prop
  /-- The versions a write takes. -/
  takes : Uuid → Prop
  /-- The nodes a write purges. -/
  buries : Uuid → Prop
  /-- The ids and keys a write stores objects under. -/
  stores : Uuid → ObjectKey → Prop

/-- A node people see: shown, and not purged. -/
def Node.seen (row : Node) : Prop :=
  row.changeSeq ≠ none ∧ row.purgedAt = none

/-- The ids above a node, nearest first, up to a root. -/
def Lineage (nodes : OrderedMap Uuid Node) : Uuid → List Uuid → Prop
  | id, [] => ∃ row, nodes.get? id = some row ∧ row.parentId = none
  | id, parent :: above =>
    ∃ row, nodes.get? id = some row ∧ row.parentId = some parent ∧
      Lineage nodes parent above

/-- The ids of a path, nearest first. -/
def nearestFirst (path : List Ancestor) : List Uuid :=
  (path.map Ancestor.id).reverse

/-- A folder nodes may be put under: not purged, with its path from the root. -/
structure HoldsPath
    (db : Database)
    (workspaceId parentId : Uuid)
    (path : List Ancestor) : Prop where
  folder : ∃ row, db.nodes.get? parentId = some row ∧ row.kind = .folder ∧
    row.workspaceId = workspaceId ∧ row.changeSeq ≠ none
  lineage : ∃ above, nearestFirst path = parentId :: above ∧
    Lineage db.nodes parentId above

/-- What marking a node leaves of its row. -/
structure Marks (care : Care) (id : Uuid) (row after : Node) : Prop where
  workspaceId : after.workspaceId = row.workspaceId
  parentId : after.parentId = row.parentId
  kind : after.kind = row.kind
  heightBound : after.heightBound = row.heightBound
  currentVersionId : after.currentVersionId = row.currentVersionId
  shown : row.changeSeq ≠ none → after.changeSeq ≠ none
  trashed : after.trashedAt ≠ row.trashedAt → after.changeSeq ≠ none
  seen : care.shallow → after.seen → row.seen
  purged : after.purgedAt = row.purgedAt ∨ care.buries id

/-- Every version on a node is purged. -/
def Spent (db : Database) (nodeId : Uuid) : Prop :=
  ∀ id row, db.versions.get? id = some row → row.nodeId = nodeId →
    row.status = .purged

/-- The tables once an upload is begun on a node that is there. -/
def Database.begun
    (db : Database)
    (object : Uuid × StoredObject)
    (version : Uuid × Version)
    (upload : Uuid × Upload) : Database :=
  { db.adjustStorage upload.2.workspaceId 0 upload.2.reservedBytes with
    objects := db.objects.set object.1 object.2
    versions := db.versions.set version.1 version.2
    uploads := db.uploads.set upload.1 upload.2 }

/-- The tables once an upload's version is ready and its upload completed. -/
def Database.readied
    (db : Database)
    (uploadId : Uuid)
    (row : Upload)
    (objectId size : Nat) : Database :=
  ((((db.adjustStorage row.workspaceId size (-row.reservedBytes)).setObject
    objectId fun object => { object with status := .ready }).setVersion
      row.versionId fun version => { version with status := .ready }).setUpload
        uploadId fun upload =>
          { upload with status := .completed, reservedBytes := 0 })

/-- The tables once a version and its upload stand on another node. -/
def Database.rebound
    (db : Database)
    (uploadId versionId nodeId keyEpoch : Nat) : Database :=
  (db.setVersion versionId fun version =>
    { version with nodeId := nodeId }).setUpload uploadId fun upload =>
      { upload with
        nodeId := nodeId
        keyEpoch := keyEpoch
        expectedVersionId := none
        newNode := true }

/-- The tables once a ready copy of an object stands on a node. -/
def Database.copied
    (db : Database)
    (id : Uuid)
    (row : Version)
    (size : Nat) : Database :=
  { db.adjustStorage row.workspaceId size 0 with
    versions := db.versions.set id row }

/-- One change of the tables, and what was checked before it. -/
inductive Change (care : Care) (db : Database) : Database → Prop
  /-- A workspace's counters and marks move; its group does not. -/
  | workspace
      (id : Uuid)
      (change : Workspace → Workspace)
      (sameGroup : ∀ row, (change row).groupId = row.groupId) :
      Change care db (db.setWorkspace id change)
  | opened
      (id : Uuid)
      (workspace : Workspace)
      (storage : Storage)
      (freshStorage : db.storage.get? id = none)
      (usedNothing : storage.usedBytes = 0)
      (reservedNothing : storage.reservedBytes = 0) :
      Change care db
        { db with
          workspaces := db.workspaces.set id workspace
          storage := db.storage.set id storage }
  /-- What stands beside the files: accounts, shares and rotations. -/
  | beside
      (rotations : OrderedMap Uuid Rotation)
      (shares : OrderedMap Uuid Share)
      (shareEvents : List ShareEvent)
      (accounts : Accounts) :
      Change care db
        { db with
          rotations := rotations
          shares := shares
          shareEvents := shareEvents
          accounts := accounts }
  /-- An outbox row keeps its key. -/
  | outbox
      (id : Uuid)
      (change : Deletion → Deletion)
      (sameKey : ∀ row, (change row).objectKey = row.objectKey) :
      Change care db { db with deletions := db.deletions.update (byId id) change }
  /-- An object keeps its key and its size. -/
  | object
      (id : Uuid)
      (change : StoredObject → StoredObject)
      (sameKey : ∀ row, (change row).objectKey = row.objectKey)
      (sameSize : ∀ row, (change row).ciphertextSize = row.ciphertextSize) :
      Change care db (db.setObject id change)
  /-- A version is superseded, or no longer is. -/
  | superseded (id : Uuid) (supersededAt : Option Nat) :
      Change care db
        (db.setVersion id fun row => { row with supersededAt := supersededAt })
  /-- An upload keeps its rows and its bytes, and stays live if it is. -/
  | upload
      (id : Uuid)
      (change : Upload → Upload)
      (row : Upload)
      (found : db.uploads.get? id = some row)
      (sameWorkspace : (change row).workspaceId = row.workspaceId)
      (sameNode : (change row).nodeId = row.nodeId)
      (sameVersion : (change row).versionId = row.versionId)
      (sameObject : (change row).objectId = row.objectId)
      (sameBytes : (change row).reservedBytes = row.reservedBytes)
      (sameLive : (change row).status.live = row.status.live) :
      Change care db (db.setUpload id change)
  /-- Nodes renamed, trashed, restored in place, re-keyed or purged. -/
  | marked
      (change : Uuid → Node → Node)
      (marks : ∀ id row, db.nodes.get? id = some row →
        Marks care id row (change id row)) :
      Change care db { db with nodes := db.nodes.mapEntries change }
  /-- A node stands under another folder, all above it raised. -/
  | placed
      (id : Uuid)
      (row : Node)
      (change : Node → Node)
      (parentId : Uuid)
      (path : List Ancestor)
      (found : db.nodes.get? id = some row)
      (held : HoldsPath db row.workspaceId parentId path)
      (notBelow : id ∉ nearestFirst path)
      (notRoot : row.parentId ≠ none)
      (within : path.length + row.heightBound ≤ MAX_DEPTH)
      (parent : (change row).parentId = some parentId)
      (sameWorkspace : (change row).workspaceId = row.workspaceId)
      (sameKind : (change row).kind = row.kind)
      (sameHeight : (change row).heightBound = row.heightBound)
      (sameCurrent : (change row).currentVersionId = row.currentVersionId)
      (samePurged : (change row).purgedAt = row.purgedAt)
      (shown : (change row).changeSeq ≠ none) :
      Change care db
        (raiseHeightBounds (db.setNode id change) path row.heightBound)
  /-- A node is inserted that people see at once, all above it raised. -/
  | grown
      (id : Uuid)
      (row : Node)
      (path : List Ancestor)
      (fresh : db.nodes.get? id = none)
      (workspace : db.workspaces.has row.workspaceId = true)
      (storage : db.storage.has row.workspaceId = true)
      (parent : ∀ parentId, row.parentId = some parentId →
        HoldsPath db row.workspaceId parentId path)
      (shown : row.changeSeq ≠ none)
      (low : row.heightBound = 0)
      (within : path.length ≤ MAX_DEPTH)
      (place : row.parentId = none → path = [] ∧ row.kind = .folder ∧
        ∀ other otherRow, db.nodes.get? other = some otherRow →
          otherRow.workspaceId = row.workspaceId →
            otherRow.parentId ≠ none) :
      Change care db
        (raiseHeightBounds { db with nodes := db.nodes.set id row } path 0)
  /-- A file's node is inserted that no feed shows yet. -/
  | sprouted
      (id : Uuid)
      (row : Node)
      (parentId : Uuid)
      (path : List Ancestor)
      (fresh : db.nodes.get? id = none)
      (workspace : db.workspaces.has row.workspaceId = true)
      (storage : db.storage.has row.workspaceId = true)
      (parent : row.parentId = some parentId)
      (held : HoldsPath db row.workspaceId parentId path)
      (kind : row.kind = .file)
      (low : row.heightBound = 0)
      (hidden : row.changeSeq = none)
      (notTrashed : row.trashedAt = none)
      (noVersion : row.currentVersionId = none) :
      Change care db { db with nodes := db.nodes.set id row }
  /-- A node's version is made current; a new file's ancestors are raised. -/
  | shown
      (id : Uuid)
      (row : Node)
      (versionId : Uuid)
      (changeSeq : Nat)
      (path : List Ancestor)
      (found : db.nodes.get? id = some row)
      (place : path = [] ∨
        ∃ parentId above, row.parentId = some parentId ∧
          nearestFirst path = parentId :: above ∧
            Lineage db.nodes parentId above)
      (careful : care.shallow →
        path.length ≤ MAX_DEPTH ∧
          (path = [] → row.seen ∨ row.parentId = none)) :
      Change care db
        (raiseHeightBounds
          (db.setNode id fun node =>
            { node with
              currentVersionId := some versionId
              changeSeq := some changeSeq })
          path 0)
  | begun
      (object : Uuid × StoredObject)
      (version : Uuid × Version)
      (upload : Uuid × Upload)
      (freshObject : db.objects.get? object.1 = none)
      (freshVersion : db.versions.get? version.1 = none)
      (freshUpload : db.uploads.get? upload.1 = none)
      (node : ∃ row, db.nodes.get? version.2.nodeId = some row ∧
        row.workspaceId = version.2.workspaceId ∧ row.kind = .file)
      (pending : version.2.status = .pending)
      (itsObject : version.2.objectId = some object.1)
      (live : upload.2.status.live = true)
      (names : upload.2.versionId = version.1)
      (sameNode : version.2.nodeId = upload.2.nodeId)
      (sameWorkspace : version.2.workspaceId = upload.2.workspaceId)
      (sameObject : version.2.objectId = upload.2.objectId)
      (nonneg : 0 ≤ upload.2.reservedBytes)
      (stored : care.stores object.1 object.2.objectKey) :
      Change care db (db.begun object version upload)
  | readied
      (uploadId : Uuid)
      (row : Upload)
      (objectId size : Nat)
      (found : db.uploads.get? uploadId = some row)
      (live : row.status.live = true)
      (named : row.objectId = some objectId)
      (sized : db.sizeOf row.objectId = some size) :
      Change care db (db.readied uploadId row objectId size)
  /-- An upload is released, its node left. -/
  | released
      (uploadId : Uuid)
      (row : Upload)
      (status : UploadStatus)
      (found : db.uploads.get? uploadId = some row)
      (live : row.status.live = true)
      (dead : status.live = false) :
      Change care db
        (releaseUpload db uploadId { row with newNode := false } status)
  | rebound
      (uploadId : Uuid)
      (row : Upload)
      (nodeId keyEpoch : Nat)
      (found : db.uploads.get? uploadId = some row)
      (live : row.status.live = true)
      (node : ∃ target, db.nodes.get? nodeId = some target ∧
        target.workspaceId = row.workspaceId ∧ target.kind = .file) :
      Change care db (db.rebound uploadId row.versionId nodeId keyEpoch)
  /-- A ready version goes. -/
  | expired
      (version : PurgedVersion)
      (row : Version)
      (objectId size : Nat)
      (found : db.versions.get? version.id = some row)
      (ready : row.status = .ready)
      (named : row.objectId = some objectId)
      (itsObject : version.objectId = row.objectId)
      (sized : db.sizeOf row.objectId = some size)
      (itsSize : version.size = some size)
      (taken : care.takes version.id) :
      Change care db (purgeReady db row.workspaceId version)
  | copied
      (id : Uuid)
      (row : Version)
      (objectId size : Nat)
      (fresh : db.versions.get? id = none)
      (node : ∃ target, db.nodes.get? row.nodeId = some target ∧
        target.workspaceId = row.workspaceId)
      (ready : row.status = .ready)
      (named : row.objectId = some objectId)
      (sized : db.sizeOf row.objectId = some size) :
      Change care db (db.copied id row size)
  /-- Nodes go with everything on them. -/
  | deleted
      (gone : Uuid → Node → Bool)
      (leaves : ∀ id row, db.nodes.get? id = some row →
        gone id row = true →
          ∀ child childRow, db.nodes.get? child = some childRow →
            childRow.parentId ≠ some id)
      (careful : care.spares → ∀ id row, db.nodes.get? id = some row →
        gone id row = true → Spent db id)
      (hidden : care.hides → ∀ id row, db.nodes.get? id = some row →
        gone id row = true → ¬ row.seen) :
      Change care db (db.deleteNodes gone)

/-- Changes one after the other. -/
inductive Trail (care : Care) : Database → Database → Prop
  | done {db : Database} : Trail care db db
  | more {db middle after : Database} :
      Trail care db middle → Change care middle after → Trail care db after

variable {care : Care}

theorem Trail.one
    {db after : Database}
    (change : Change care db after) :
    Trail care db after :=
  .more .done change

theorem Trail.trans
    {db middle after : Database}
    (first : Trail care db middle)
    (second : Trail care middle after) :
    Trail care db after := by
  induction second with
  | done =>
    exact first
  | more _ change inductionHypothesis =>
    exact .more inductionHypothesis change

theorem Trail.keeps
    {invariant : Database → Prop}
    (keeps : ∀ {db after}, invariant db → Change care db after →
      invariant after)
    {db after : Database}
    (trail : Trail care db after)
    (holds : invariant db) :
    invariant after := by
  induction trail with
  | done =>
    exact holds
  | more _ change inductionHypothesis =>
    exact keeps inductionHypothesis change

end Drive

end HushOS
