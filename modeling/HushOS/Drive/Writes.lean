import HushOS.Drive.Figures

namespace HushOS

open Toolkit

namespace Drive

/-!
# The writes operations share

The steps several operations take under the workspace's lock: raising height
bounds, releasing and publishing an upload, purging a version or a node,
marking nodes trashed.
-/

/-- Raise the height bound of the nodes named, to at least the height given. -/
def raiseAt (db : Database) (id : Uuid) (height : Nat) : Database :=
  db.setNode id fun row =>
    if row.heightBound < height then
      { row with heightBound := height }
    else
      row

/--
`raiseHeightBounds`: every ancestor lower than its distance to a new leaf is
raised to it.  Ancestors stand root first; the parent is last.
-/
def raiseHeightBounds
    (db : Database)
    (ancestors : List Ancestor)
    (leafHeight : Nat) : Database :=
  match ancestors with
  | [] => db
  | ancestor :: below =>
    raiseHeightBounds
      (raiseAt db ancestor.id (below.length + 1 + leafHeight))
      below leafHeight

/-- A row of `drive_nodes` as inserts make it. -/
def newNodeRow
    (workspaceId : Uuid)
    (parentId : Option Uuid)
    (kind : NodeKind)
    (keyEpoch parentKeyEpoch : Nat)
    (changeSeq : Option Nat) : Node where
  workspaceId := workspaceId
  parentId := parentId
  kind := kind
  keyEpoch := keyEpoch
  parentKeyEpoch := parentKeyEpoch
  prevKey := none
  metadataVersion := 1
  currentVersionId := none
  trashedAt := none
  removedAt := none
  heightBound := 0
  changeSeq := changeSeq
  purgedAt := none
  purgedAncestorIds := none

/-- Insert a node; an id already taken is answered, not overwritten. -/
def insertNode
    (db : Database)
    (id : Uuid)
    (row : Node)
    (taken : Answer) : Except Answer Database :=
  match db.nodes.get? id with
  | some _ => .error taken
  | none => .ok { db with nodes := db.nodes.set id row }

section Releasing

/-- A never-published node goes without a tombstone, its versions first. -/
def dropNode (db : Database) (nodeId : Uuid) : Database :=
  (db.deleteVersions fun _ row => row.nodeId = nodeId).deleteNodes
    (byId nodeId)

/--
`releaseUpload`: bytes back from reserved, the pending version purged, the
object retired, and a never-published node removed.
-/
def releaseUpload
    (db : Database)
    (uploadId : Uuid)
    (row : Upload)
    (status : UploadStatus) : Database :=
  let settled :=
    (((db.adjustStorage row.workspaceId 0 (-row.reservedBytes)).purgeVersionRow
      row.versionId).setUpload uploadId fun upload =>
        { upload with status := status, reservedBytes := 0 }).retireNamed
          row.objectId
  if row.newNode then dropNode settled row.nodeId else settled

end Releasing

section Publishing

/-- A version as a purge reads it, with its object's size. -/
structure PurgedVersion where
  id : Uuid
  status : VersionStatus
  objectId : Option Uuid
  size : Option Nat
  deriving DecidableEq

/-- A ready version goes: its bytes back from used, its object retired. -/
def purgeReady
    (db : Database)
    (workspaceId : Uuid)
    (version : PurgedVersion) : Database :=
  ((db.purgeVersionRow version.id).adjustStorage workspaceId
    (-(version.size.getD 0 : Int)) 0).retireNamed version.objectId

/-- The versions of a node that meet a condition, with their objects' sizes. -/
def versionsWhere
    (db : Database)
    (meets : Uuid → Version → Bool) : List PurgedVersion :=
  (db.versions.select meets).map fun entry =>
    { id := entry.1
      status := entry.2.status
      objectId := entry.2.objectId
      size := db.sizeOf entry.2.objectId }

/--
What `publishUpload` reads as older: the node's ready versions with an object,
but the displaced one and the one being published.
-/
def olderVersions
    (db : Database)
    (nodeId displaced published : Uuid) : List PurgedVersion :=
  (versionsWhere db fun id row =>
    row.nodeId = nodeId && row.status = .ready && id ≠ displaced &&
      id ≠ published).filter fun version => version.size.isSome

/-- The displaced version is superseded, and those before it are purged. -/
def supersede
    (db : Database)
    (workspaceId nodeId displaced published : Uuid)
    (now : Nat) : Database :=
  ((olderVersions db nodeId displaced published).foldl
    (fun db version => purgeReady db workspaceId version) db).setVersion
      displaced fun row => { row with supersededAt := some now }

/--
`publishUpload`: bytes move from reserved to used, the version becomes
current, the displaced version is superseded, and what it had superseded is
purged.
-/
def publishUpload
    (db : Database)
    (uploadId : Uuid)
    (row : Upload)
    (ciphertextSize : Nat)
    (ancestors : List Ancestor)
    (displaced : Option Uuid)
    (changeSeq now : Nat) : Answer × Database :=
  let counted_ := db.adjustStorage row.workspaceId ciphertextSize
    (-row.reservedBytes)
  let readied :=
    ((match row.objectId with
      | none => counted_
      | some objectId => counted_.setObject objectId fun object =>
        { object with status := .ready }).setVersion row.versionId
          fun version => { version with status := .ready })
  let cleared :=
    match displaced with
    | none => readied
    | some displaced =>
      supersede readied row.workspaceId row.nodeId displaced row.versionId
        now
  let current := cleared.setNode row.nodeId fun node =>
    { node with
      currentVersionId := some row.versionId
      changeSeq := some changeSeq }
  let raised :=
    if row.newNode then raiseHeightBounds current ancestors 0 else current
  (.published row.nodeId displaced,
    raised.setUpload uploadId fun upload =>
      { upload with status := .completed, reservedBytes := 0 })

end Publishing

section Purging

/-- The upload a version was begun by. -/
def uploadOf (db : Database) (versionId : Uuid) : Option (Uuid × Upload) :=
  (db.uploads.select fun _ row => row.versionId = versionId).head?

/-- A version that is not ready goes: nothing of it is counted as used. -/
def purgeUncounted (db : Database) (version : PurgedVersion) : Database :=
  (db.purgeVersionRow version.id).retireNamed version.objectId

/--
`purgeVersion`: a ready version gives its bytes back from used; a pending one
is its upload's to release, and a completing upload's is left alone.
-/
def purgeVersion
    (db : Database)
    (workspaceId : Uuid)
    (version : PurgedVersion) : Database :=
  match version.status with
  | .purged => db
  | .ready =>
    match version.size with
    | some _ => purgeReady db workspaceId version
    | none => purgeUncounted db version
  | .pending =>
    match uploadOf db version.id with
    | some (uploadId, row) =>
      match row.status with
      | .completing => db
      | .open_ | .conflicted =>
        releaseUpload db uploadId { row with newNode := false } .aborted
      | .completed | .aborted => purgeUncounted db version
    | none => purgeUncounted db version

/-- The row of a node as its purge leaves it. -/
def tombstone
    (changeSeq now : Nat)
    (ancestorIds : List Uuid)
    (row : Node) : Node :=
  { row with
    purgedAt := some now
    purgedAncestorIds := some ancestorIds
    changeSeq := some changeSeq }

/-- Every live share on a node is revoked. -/
def revokeShares (db : Database) (nodeId now : Nat) : Database :=
  { db with
    shares := db.shares.update
      (fun _ share => share.nodeId = nodeId && share.revokedAt.isNone)
      fun share => { share with revokedAt := some now } }

/--
`purgeOne`: every version goes, the node stays as a tombstone with the change
number given, and its live shares are revoked.  Its ancestors are the caller's
walk's, or walked here once its versions are gone.  A tombstone may keep no
previous key, so the schema refuses to purge a node a running rotation reached.
-/
def purgeOne
    (db : Database)
    (workspaceId nodeId : Uuid)
    (changeSeq : Nat)
    (ancestorIds : Option (List Uuid))
    (now : Nat) : Except Answer Database :=
  match db.nodes.get? nodeId with
  | none => .ok db
  | some node =>
    if node.workspaceId = workspaceId ∧ node.purgedAt = none then
      if node.prevKey.isSome then
        .error (.thrown .constraint)
      else
        let emptied :=
          (versionsWhere db fun _ row => row.nodeId = nodeId).foldl
            (fun db version => purgeVersion db workspaceId version) db
        let above := ancestorIds.getD
          (((walk emptied nodeId).map fun walked =>
            walked.ancestors.map Ancestor.id).getD [])
        .ok (revokeShares
          (emptied.setNode nodeId (tombstone changeSeq now above))
          nodeId now)
    else
      .ok db

/-- `settleMove`: the source is purged and the upload forgets it. -/
def settleMove
    (db : Database)
    (uploadId : Uuid)
    (move : MoveRecord)
    (sourceSeq now : Nat) : Except Answer Database := do
  let purged ← purgeOne db move.workspaceId move.nodeId sourceSeq none now
  .ok (purged.setUpload uploadId fun upload => { upload with move := none })

end Purging

section Marking

/--
`markTrashed`: nodes to the trash, or back in place, each with the next change
number in the order given.
-/
def markTrashed
    (db : Database)
    (ids : List Uuid)
    (firstSeq : Nat)
    (trashedAt : Option Nat) : Database :=
  match ids with
  | [] => db
  | id :: rest =>
    markTrashed
      (db.setNode id fun row =>
        { row with trashedAt := trashedAt, changeSeq := some firstSeq })
      rest (firstSeq + 1) trashedAt

/-- What a share sees of a move between two chains, if anything. -/
def shareEventKind
    (fromChain toChain : List Uuid)
    (nodeId : Uuid) : Option ShareEventKind :=
  match decide (nodeId ∈ fromChain), decide (nodeId ∈ toChain) with
  | true, false => some .left
  | false, true => some .entered
  | _, _ => none

/-- `recordShareEvents`: live shares above one chain and not the other. -/
def recordShareEvents
    (db : Database)
    (changeSeq nodeId : Nat)
    (fromChain toChain : List Uuid) : Database :=
  { db with
    shareEvents := db.shareEvents ++
      (db.shares.select fun _ share => share.revokedAt.isNone).filterMap
        fun entry =>
          (shareEventKind fromChain toChain entry.2.nodeId).map fun kind =>
            { shareId := entry.1
              changeSeq := changeSeq
              nodeId := nodeId
              kind := kind } }

end Marking

end Drive

end HushOS
