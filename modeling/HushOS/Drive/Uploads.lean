import HushOS.Drive.Writes

namespace HushOS

open Toolkit

namespace Drive

/-!
# Uploads

Begin reserves bytes and inserts pending rows; complete moves an upload from
open to completing and, once the store has the object, publishes it under the
workspace's lock after checking every precondition again; attach publishes a
conflicted one under fresh keys; abort and expiry release.

Completing and attaching are written as what they come to (`Ending`,
`Attaching`), by the checks in their order, and what each ending writes.
-/

section Begin

/-- The node an upload is for: a new file, or an existing one. -/
inductive UploadNode where
  | fresh (id parentId : Uuid) (keyEpoch parentKeyEpoch : Nat)
  | existing (id : Uuid) (keyEpoch : Nat) (expectedVersionId : Option Uuid)
  deriving DecidableEq

/-- The id of the node an upload is for. -/
def UploadNode.id : UploadNode → Uuid
  | .fresh id _ _ _ => id
  | .existing id _ _ => id

/-- Whether an upload makes its node. -/
def UploadNode.isNew : UploadNode → Bool
  | .fresh .. => true
  | .existing .. => false

/-- An object as begin declares it. -/
structure NewObject where
  id : Uuid
  objectKey : ObjectKey
  contentSuite : Nat
  chunkSize : Nat
  chunkCount : Nat
  ciphertextSize : Nat
  deriving DecidableEq

/-- A move's source as the client names it: the file and the version it read. -/
structure MoveOf where
  workspaceId : Uuid
  nodeId : Uuid
  versionId : Uuid
  deriving DecidableEq

/--
What begin is asked.  `signed` is the answer of the signature check over the
request's statements; `uploadId` is the id the table draws.
-/
structure UploadBegin where
  workspaceId : Uuid
  userId : Uuid
  node : UploadNode
  versionId : Uuid
  /-- The length of the content-key envelope. -/
  envelopeLength : Nat
  object : NewObject
  expiresAt : Nat
  moveOf : Option MoveOf
  signed : Bool
  uploadId : Uuid
  now : Nat
  deriving DecidableEq

/-- `drive_objects_framing_valid`, the plaintext size null as begin has it. -/
def framingValid (object : NewObject) : Bool :=
  0 < object.chunkSize && 1 ≤ object.chunkCount &&
    (object.contentSuite = 1 ||
      ((object.contentSuite = 2 || object.contentSuite = 3) &&
        16 * object.chunkCount ≤ object.ciphertextSize))

/-- `file_versions_envelope_valid`, of a version not purged. -/
def envelopeValid (length : Nat) : Bool :=
  length = 72 || length = 84

/-- `bytesFreedBy`: every ready version's object. -/
def bytesFreedBy (db : Database) (nodeId : Uuid) : Int :=
  db.versions.total fun _ row =>
    if row.nodeId = nodeId ∧ row.status = .ready then
      ((db.sizeOf row.objectId).getD 0 : Int)
    else 0

/-- `movePolicyAllows`: nothing moves out of a company's area. -/
def movePolicyAllows (db : Database) (sourceWorkspaceId : Uuid) : Bool :=
  match groupOf db sourceWorkspaceId with
  | none => true
  | some groupId => !db.accounts.companies.contains groupId

/-- `moveSourceAtBegin`: a move's source, as completion will be held to. -/
def moveSourceAtBegin
    (db : Database)
    (input : UploadBegin)
    (moveOf : MoveOf) : Except Answer MoveRecord := do
  refuseIf
    (!input.node.isNew || moveOf.workspaceId = input.workspaceId)
    Answer.invalid
  refuseIf (!holdsWorkspace db input.userId input.workspaceId)
    Answer.notFound
  refuseIf (!mayStillRemove db input.userId moveOf.workspaceId input.now)
    Answer.notFound
  refuseIf (!movePolicyAllows db moveOf.workspaceId) Answer.policy
  let chain ← walkTo db moveOf.workspaceId moveOf.nodeId .file .notFound
  refuseIf chain.trashed Answer.stale
  let changeSeq ← orRefuse chain.node.changeSeq .stale
  refuseIf (chain.node.currentVersionId ≠ some moveOf.versionId)
    Answer.stale
  .ok
    { workspaceId := moveOf.workspaceId
      nodeId := moveOf.nodeId
      versionId := moveOf.versionId
      changeSeq := changeSeq
      freedBytes := bytesFreedBy db moveOf.nodeId
      movedBy := input.userId }

/-- A parent a node may be made under: its walk, and the epoch it is wrapped at. -/
def parentFor
    (db : Database)
    (workspaceId parentId : Uuid)
    (keyEpoch parentKeyEpoch : Nat) : Except Answer Walk := do
  let parent ← walkTo db workspaceId parentId .folder .notFound
  refuseIf parent.trashed Answer.parentTrashed
  refuseIf (underUnrotatedParent db workspaceId parent) Answer.rotating
  refuseIf (MAX_DEPTH < parent.depth + 1) Answer.tooDeep
  refuseIf (parentKeyEpoch ≠ parent.node.keyEpoch) Answer.stale
  refuseIf (!epochWasAllocated db workspaceId keyEpoch) Answer.stale
  .ok parent

/-- The key epoch an upload is under, and the version it expects current. -/
def uploadNodeAt
    (db : Database)
    (workspaceId : Uuid) :
    UploadNode → Except Answer (Nat × Option Uuid)
  | .existing id keyEpoch expectedVersionId => do
      let chain ← walkTo db workspaceId id .file .notFound
      refuseIf chain.trashed Answer.trashed
      refuseIf (underUnrotatedParent db workspaceId chain) Answer.rotating
      refuseIf (chain.node.keyEpoch ≠ keyEpoch) Answer.stale
      refuseIf (chain.node.currentVersionId ≠ expectedVersionId)
        Answer.stale
      .ok (keyEpoch, chain.node.currentVersionId)
  | .fresh _ parentId keyEpoch parentKeyEpoch => do
      let _ ← parentFor db workspaceId parentId keyEpoch parentKeyEpoch
      .ok (keyEpoch, none)

/--
What an upload reserves: its size, or for a move within one pool what the copy
takes beyond what its source frees.
-/
def reserveFor
    (size : Nat)
    (move : Option MoveRecord)
    (pooled : Bool) : Int :=
  match move with
  | some move =>
    if pooled then
      if move.freedBytes < size then (size : Int) - move.freedBytes else 0
    else
      size
  | none => size

/-- The move of an upload, when its request names one. -/
def moveAtBegin
    (db : Database)
    (input : UploadBegin) : Except Answer (Option MoveRecord) :=
  match input.moveOf with
  | none => .ok none
  | some moveOf => do
      let move ← moveSourceAtBegin db input moveOf
      .ok (some move)

/-- Whether a move draws from the pool its copy is charged to. -/
def pooledMove
    (db : Database)
    (storage : StorageFigures)
    (move : Option MoveRecord)
    (now : Nat) : Bool :=
  match move with
  | some move => samePool db storage move.workspaceId now
  | none => false

/-- A new file's node, which no feed shows until it is published. -/
def insertPending
    (db : Database)
    (workspaceId : Uuid) : UploadNode → Except Answer Database
  | .fresh id parentId keyEpoch parentKeyEpoch =>
    insertNode db id
      (newNodeRow workspaceId (some parentId) .file keyEpoch
        parentKeyEpoch none) .conflict
  | .existing .. => .ok db

/-- Insert an object; an id or a key already taken is the same refusal. -/
def insertObject
    (db : Database)
    (workspaceId : Uuid)
    (object : NewObject) : Except Answer Database := do
  refuseIf (!framingValid object) (Answer.thrown .constraint)
  refuseIf
    (db.objects.has object.id ||
      db.objects.exists_ fun _ row => row.objectKey = object.objectKey)
    Answer.conflict
  .ok { db with
    objects := db.objects.set object.id
      { workspaceId := workspaceId
        objectKey := object.objectKey
        contentSuite := object.contentSuite
        chunkSize := object.chunkSize
        chunkCount := object.chunkCount
        ciphertextSize := object.ciphertextSize
        status := .pending
        replicatedAt := none } }

/-- Insert a version; an id already taken is refused. -/
def insertVersion
    (db : Database)
    (id : Uuid)
    (envelopeLength : Nat)
    (row : Version) : Except Answer Database := do
  refuseIf (!envelopeValid envelopeLength) (Answer.thrown .constraint)
  refuseIf (db.versions.has id) Answer.conflict
  .ok { db with versions := db.versions.set id row }

/-- Insert an upload; one live move per file, and no id twice. -/
def insertUpload
    (db : Database)
    (id : Uuid)
    (row : Upload) : Except Answer Database := do
  refuseIf
    (db.uploads.has id ||
      match row.move with
      | none => false
      | some move =>
        db.uploads.exists_ fun _ other =>
          other.status.live &&
            match other.move with
            | none => false
            | some earlier => earlier.nodeId = move.nodeId)
    Answer.moving
  .ok { db with uploads := db.uploads.set id row }

/-- The rows a begin inserts once it may reserve. -/
def insertBegun
    (db : Database)
    (input : UploadBegin)
    (keyEpoch : Nat)
    (expectedVersionId : Option Uuid)
    (move : Option MoveRecord)
    (reserve : Int) : Except Answer Database := do
  let reserved := db.adjustStorage input.workspaceId 0 reserve
  let withNode ← insertPending reserved input.workspaceId input.node
  let withObject ← insertObject withNode input.workspaceId input.object
  let withVersion ← insertVersion withObject input.versionId
    input.envelopeLength
    { nodeId := input.node.id
      workspaceId := input.workspaceId
      objectId := some input.object.id
      status := .pending
      supersededAt := none }
  insertUpload withVersion input.uploadId
    { workspaceId := input.workspaceId
      nodeId := input.node.id
      versionId := input.versionId
      objectId := some input.object.id
      objectKey := input.object.objectKey
      keyEpoch := keyEpoch
      expectedVersionId := expectedVersionId
      newNode := input.node.isNew
      reservedBytes := reserve
      expiresAt := input.expiresAt
      status := .open_
      completingAt := none
      move := move }

/-- `beginUploadOnce`, under the lock. -/
def beginUploadBody (input : UploadBegin) (db : Database) : Body := do
  let (keyEpoch, expectedVersionId) ←
    uploadNodeAt db input.workspaceId input.node
  refuseIf (!input.signed) Answer.badSignature
  let move ← moveAtBegin db input
  let storage ← orRefuse (storageFigures db input.workspaceId input.now)
    .notFound
  let reserve := reserveFor input.object.ciphertextSize move
    (pooledMove db storage move input.now)
  refuseIf (0 < reserve ∧ storage.free < reserve)
    (Answer.overQuota (named storage.free))
  let begun ← insertBegun db input keyEpoch expectedVersionId move reserve
  .ok (.begun input.uploadId, begun)

/-- `beginUpload`: only `ok` is kept. -/
def beginUpload (db : Database) (input : UploadBegin) : Answer × Database :=
  keepingUnderLock db input.workspaceId (some input.userId) input.now
    fun _ locked => beginUploadBody input locked

end Begin

section Completing

/-- `getUpload`: an upload of a workspace, by its id. -/
def getUpload
    (db : Database)
    (workspaceId uploadId : Uuid) : Option Upload :=
  (db.uploads.get? uploadId).filter fun row => row.workspaceId = workspaceId

/-- `moveOfUpload`: the source an upload names, read before its completion. -/
def moveOfUpload
    (db : Database)
    (workspaceId uploadId : Uuid) : Option MoveRecord :=
  (getUpload db workspaceId uploadId).bind Upload.move

/-- Whether a node no longer is what an upload began at. -/
def uploadStale (db : Database) (row : Upload) : Bool :=
  match db.nodes.get? row.nodeId with
  | none => true
  | some node =>
    node.keyEpoch ≠ row.keyEpoch ||
      (!row.newNode && node.currentVersionId ≠ row.expectedVersionId)

/-- The writer check of `startCompleting`, which takes no change number. -/
def writerMay
    (db : Database)
    (workspaceId : Uuid)
    (writer : Option Uuid)
    (now : Nat) : Except Answer Unit :=
  match writer with
  | none => .ok ()
  | some writer =>
    requireStillWriter db workspaceId writer (groupOf db workspaceId) false
      now

/-- `startCompleting`: open to completing; a repeat while completing is a retry. -/
def startCompleting
    (db : Database)
    (workspaceId uploadId : Uuid)
    (writer : Option Uuid)
    (now : Nat) : Answer × Database :=
  let body : Body := do
    writerMay db workspaceId writer now
    let row ← orRefuse (getUpload db workspaceId uploadId) .notFound
    match row.status with
    | .completed => .error .completed
    | .aborted => .error .aborted
    | .conflicted => .error .isConflicted
    | .completing => .ok (.completing (uploadStale db row), db)
    | .open_ =>
      refuseIf (row.expiresAt ≤ now) Answer.expired
      let started := db.setUpload uploadId fun upload =>
        { upload with status := .completing, completingAt := some now }
      .ok (.completing (uploadStale started row), started)
  match body with
  | .error answer => (answer, db)
  | .ok result => result

/--
`lockForCompletion`: the destination's change number, and the source's for a
move; the source's is null when its workspace is gone.
-/
def lockForCompletion
    (db : Database)
    (workspaceId : Uuid)
    (writer : Option Uuid)
    (move : Option MoveRecord)
    (now : Nat) : Except Answer (Nat × Option Nat × Database) := do
  let (changeSeq, locked) ← nextChangeSeq db workspaceId writer false now
  match move with
  | none => .ok (changeSeq, none, locked)
  | some move =>
    if move.workspaceId = workspaceId then do
      let (again, relocked) ← nextChangeSeq locked workspaceId writer false
        now
      .ok (again, none, relocked)
    else
      match locked.workspaces.get? move.workspaceId with
      | none => .ok (changeSeq, none, locked)
      | some source =>
        .ok (changeSeq, some (source.changeSeq + 1),
          moreChangeSeqs locked move.workspaceId 1)

/-- Whether some upload of a node still holds bytes. -/
def liveUploadOn (db : Database) (nodeId : Uuid) : Bool :=
  db.uploads.exists_ fun _ row => row.nodeId = nodeId && row.status.live

/--
Whether a copy charged less than its size still draws from its source's pool;
one charged in full spends nothing of the source's.
-/
def stillPooled
    (db : Database)
    (row : Upload)
    (move : MoveRecord)
    (now : Nat) : Bool :=
  match db.sizeOf row.objectId with
  | some size =>
    if row.reservedBytes < size then
      match storageFigures db row.workspaceId now with
      | none => false
      | some destination => samePool db destination move.workspaceId now
    else
      true
  | none =>
    match storageFigures db row.workspaceId now with
    | none => false
    | some destination => samePool db destination move.workspaceId now

/-- Whether a move's source is the file begin recorded, unchanged. -/
def sourceAsRecorded (db : Database) (move : MoveRecord) : Bool :=
  match walk db move.nodeId with
  | none => false
  | some chain =>
    chain.here move.workspaceId && !chain.trashed &&
      chain.node.kind = .file &&
      chain.node.currentVersionId = some move.versionId &&
      chain.node.changeSeq = some move.changeSeq &&
      !liveUploadOn db move.nodeId &&
      bytesFreedBy db move.nodeId = move.freedBytes

/-- `moveStillHolds`: whether a move may still finish. -/
def moveStillHolds
    (db : Database)
    (row : Upload)
    (move : MoveRecord)
    (sourceSeq : Option Nat)
    (now : Nat) : Bool :=
  sourceSeq.isSome &&
    (match db.workspaces.get? move.workspaceId with
      | none => false
      | some space => space.deletedAt.isNone) &&
    mayStillRemove db move.movedBy move.workspaceId now &&
    mayStillRemove db move.movedBy row.workspaceId now &&
    stillPooled db row move now && sourceAsRecorded db move

/-- Whether a move, if the upload is one, may still finish. -/
def holdsIfMove
    (db : Database)
    (row : Upload)
    (move : Option MoveRecord)
    (sourceSeq : Option Nat)
    (now : Nat) : Bool :=
  match move with
  | none => true
  | some move => moveStillHolds db row move sourceSeq now

/-- What completing an upload comes to. -/
inductive Ending where
  /-- The upload is released. -/
  | release (answer : Answer)
  /-- A precondition moved: its bytes stay reserved, its object in the store. -/
  | conflict (currentVersionId : Option Uuid)
  | publish (chain : Walk) (ciphertextSize : Nat) (displaced : Option Uuid)
  deriving DecidableEq

/-- Whether what a new or an existing file's upload began at has moved. -/
def preconditionMoved (row : Upload) (chain : Walk) : Bool :=
  chain.node.keyEpoch ≠ row.keyEpoch ||
    if row.newNode then
      match chain.ancestors.getLast? with
      | none => true
      | some parent => parent.keyEpoch ≠ chain.node.parentKeyEpoch
    else
      chain.node.currentVersionId ≠ row.expectedVersionId

/-- The checks of `finishCompletingOnce` on an upload it may complete. -/
def endingOf
    (db : Database)
    (workspaceId : Uuid)
    (row : Upload)
    (storedSize : Option Nat)
    (move : Option MoveRecord)
    (sourceSeq : Option Nat)
    (now : Nat) : Ending :=
  if ((db.workspaces.get? workspaceId).bind Workspace.deletedAt).isSome then
    .release .purged
  else
    match storedSize, db.sizeOf row.objectId with
    | some stored, some size =>
      if stored ≠ size then
        .release .sizeMismatch
      else
        match walk db row.nodeId with
        | none => .release .purged
        | some chain =>
          if chain.purged then
            .release .purged
          else if !holdsIfMove db row move sourceSeq now then
            .release .moveStale
          else if preconditionMoved row chain then
            .conflict chain.node.currentVersionId
          else
            .publish chain size chain.node.currentVersionId
    | _, _ => .release .sizeMismatch

/-- A copy is published, and for a move its source goes with it. -/
def publishAndSettle
    (db : Database)
    (uploadId : Uuid)
    (row : Upload)
    (ciphertextSize : Nat)
    (ancestors : List Ancestor)
    (displaced : Option Uuid)
    (changeSeq : Nat)
    (move : Option MoveRecord)
    (sourceSeq : Option Nat)
    (now : Nat) : Body :=
  let (answer, published) := publishUpload db uploadId row ciphertextSize
    ancestors displaced changeSeq now
  match move with
  | none => .ok (answer, published)
  | some move => do
      let settled ← settleMove published uploadId move (sourceSeq.getD 0) now
      .ok (answer, settled)

/-- What an ending of `finishCompletingOnce` writes. -/
def complete
    (db : Database)
    (uploadId : Uuid)
    (row : Upload)
    (move : Option MoveRecord)
    (changeSeq : Nat)
    (sourceSeq : Option Nat)
    (now : Nat) : Ending → Body
  | .release answer =>
    .ok (answer, releaseUpload db uploadId row .aborted)
  | .conflict currentVersionId =>
    .ok (.conflicted currentVersionId,
      db.setUpload uploadId fun upload =>
        { upload with status := .conflicted })
  | .publish chain ciphertextSize displaced =>
    publishAndSettle db uploadId row ciphertextSize chain.ancestors
      displaced changeSeq move sourceSeq now

/-- A transaction under the locks a completion takes. -/
def underCompletionLock
    (db : Database)
    (workspaceId : Uuid)
    (writer : Option Uuid)
    (move : Option MoveRecord)
    (now : Nat)
    (body : Nat → Option Nat → Database → Body) : Answer × Database :=
  match lockForCompletion db workspaceId writer move now with
  | .error answer => (answer, db)
  | .ok (changeSeq, sourceSeq, locked) =>
    match body changeSeq sourceSeq locked with
    | .error answer => (answer, if answer.throws then db else locked)
    | .ok result => result

/--
`finishCompletingOnce`: the last step of complete.  `storedSize` is what the
store reports; `move` is what `moveOfUpload` read before the transaction.
-/
def finishCompleting
    (db : Database)
    (workspaceId uploadId : Uuid)
    (storedSize : Option Nat)
    (move : Option MoveRecord)
    (writer : Option Uuid)
    (now : Nat) : Answer × Database :=
  underCompletionLock db workspaceId writer move now
    fun changeSeq sourceSeq locked => do
      let row ← orRefuse (getUpload locked workspaceId uploadId) .notFound
      match row.status with
      | .completed => .error .completed
      | .open_ | .aborted => .error (.notCompleting row.status)
      | .completing | .conflicted =>
        complete locked uploadId row move changeSeq sourceSeq now
          (endingOf locked workspaceId row storedSize move sourceSeq now)

end Completing

section Attaching

/-- How a conflicted upload is attached. -/
inductive AttachMode where
  | sameNode (keyEpoch : Nat)
  | sibling (id parentId : Uuid) (keyEpoch parentKeyEpoch : Nat)
  deriving DecidableEq

/-- What attach is asked; `signed` is the answer of the signature check. -/
structure AttachInput where
  mode : AttachMode
  envelopeLength : Nat
  signed : Bool
  deriving DecidableEq

/-- What attaching an upload comes to. -/
inductive Attaching where
  | release (answer : Answer)
  | publish (chain : Walk)
  | sibling (parent : Walk) (id : Uuid) (keyEpoch parentKeyEpoch : Nat)
  deriving DecidableEq

/-- The checks of the same-node mode. -/
def sameNodeAttaching
    (db : Database)
    (workspaceId : Uuid)
    (row : Upload)
    (keyEpoch : Nat) : Except Answer Attaching :=
  match walk db row.nodeId with
  | none => .ok (.release .purged)
  | some chain =>
    if chain.purged then
      .ok (.release .purged)
    else do
      refuseIf (underUnrotatedParent db workspaceId chain) Answer.rotating
      refuseIf (chain.node.keyEpoch ≠ keyEpoch) Answer.stale
      refuseIf
        (row.newNode ||
          chain.node.currentVersionId ≠ row.expectedVersionId)
        (Answer.conflicted chain.node.currentVersionId)
      .ok (.publish chain)

/-- The checks of `attachUploadOnce` on a conflicted upload with its object. -/
def attachingOf
    (db : Database)
    (workspaceId : Uuid)
    (row : Upload)
    (input : AttachInput)
    (move : Option MoveRecord)
    (sourceSeq : Option Nat)
    (now : Nat) : Except Answer Attaching :=
  if !holdsIfMove db row move sourceSeq now then
    .ok (.release .moveStale)
  else do
    refuseIf (!input.signed) Answer.badSignature
    match input.mode with
    | .sameNode keyEpoch => sameNodeAttaching db workspaceId row keyEpoch
    | .sibling id parentId keyEpoch parentKeyEpoch =>
      let parent ← parentFor db workspaceId parentId keyEpoch parentKeyEpoch
      .ok (.sibling parent id keyEpoch parentKeyEpoch)

/--
The sibling's node, and the version and the upload moved to it; a node begin
made for this upload goes with the old plan.
-/
def moveToSibling
    (db : Database)
    (uploadId : Uuid)
    (row : Upload)
    (parentId id : Uuid)
    (keyEpoch parentKeyEpoch envelopeLength : Nat) :
    Except Answer Database := do
  let created ← insertNode db id
    (newNodeRow row.workspaceId (some parentId) .file keyEpoch
      parentKeyEpoch none) .conflict
  refuseIf (!envelopeValid envelopeLength) (Answer.thrown .constraint)
  let bound :=
    (created.setVersion row.versionId fun version =>
      { version with nodeId := id }).setUpload uploadId fun upload =>
        { upload with
          nodeId := id
          keyEpoch := keyEpoch
          expectedVersionId := none
          newNode := true }
  .ok (if row.newNode then dropNode bound row.nodeId else bound)

/-- What an attaching writes. -/
def attach
    (db : Database)
    (uploadId : Uuid)
    (row : Upload)
    (ciphertextSize keyEpoch envelopeLength : Nat)
    (move : Option MoveRecord)
    (changeSeq : Nat)
    (sourceSeq : Option Nat)
    (now : Nat) : Attaching → Body
  | .release answer =>
    .ok (answer, releaseUpload db uploadId row .aborted)
  | .publish chain => do
      refuseIf (!envelopeValid envelopeLength) (Answer.thrown .constraint)
      publishAndSettle
        (db.setUpload uploadId fun upload =>
          { upload with keyEpoch := keyEpoch })
        uploadId { row with keyEpoch := keyEpoch } ciphertextSize
        chain.ancestors chain.node.currentVersionId changeSeq move sourceSeq
        now
  | .sibling parent id keyEpoch parentKeyEpoch => do
      let moved ← moveToSibling db uploadId row parent.id id keyEpoch
        parentKeyEpoch envelopeLength
      publishAndSettle moved uploadId
        { row with
          nodeId := id
          keyEpoch := keyEpoch
          expectedVersionId := none
          newNode := true }
        ciphertextSize parent.path none changeSeq move sourceSeq now

/-- The key epoch an attach states. -/
def AttachMode.keyEpoch : AttachMode → Nat
  | .sameNode keyEpoch => keyEpoch
  | .sibling _ _ keyEpoch _ => keyEpoch

/-- `attachUploadOnce`: a conflicted upload's object, under fresh keys. -/
def attachUpload
    (db : Database)
    (workspaceId uploadId : Uuid)
    (input : AttachInput)
    (move : Option MoveRecord)
    (writer : Option Uuid)
    (now : Nat) : Answer × Database :=
  underCompletionLock db workspaceId writer move now
    fun changeSeq sourceSeq locked => do
      let row ← orRefuse (getUpload locked workspaceId uploadId) .notFound
      match row.status with
      | .completed => .error .completed
      | .open_ | .completing | .aborted => .error (.notConflicted row.status)
      | .conflicted =>
        let size ← orRefuse (locked.sizeOf row.objectId)
          (.notConflicted row.status)
        let attaching ← attachingOf locked workspaceId row input move
          sourceSeq now
        attach locked uploadId row size input.mode.keyEpoch
          input.envelopeLength move changeSeq sourceSeq now attaching

end Attaching

section Aborting

/-- `abortUpload`: from the client or from expiry; a completing one only by force. -/
def abortUpload
    (db : Database)
    (workspaceId uploadId : Uuid)
    (force : Bool)
    (now : Nat) : Answer × Database :=
  underLock db workspaceId none now fun _ locked => do
    let row ← orRefuse (getUpload locked workspaceId uploadId) .notFound
    match row.status with
    | .completed => .error .completed
    | .aborted => .error .ok
    | .completing =>
      refuseIf (!force) Answer.isCompleting
      .ok (.ok, releaseUpload locked uploadId row .aborted)
    | .open_ | .conflicted =>
      .ok (.ok, releaseUpload locked uploadId row .aborted)

end Aborting

end Drive

end HushOS
