import HushOS.Drive.Uploads

namespace HushOS

open Toolkit

namespace Drive

/-!
# Copies, versions and purges

Copying a file within a workspace, swapping and discarding its versions, and
everything that deletes forever: by a person, by the sweeps, by the fan-out
under a purged folder, and the tombstones past their window.
-/

section Copying

/-- What a copy is asked; `signed` is the answer of the signature check. -/
structure CopyFile where
  workspaceId : Uuid
  userId : Uuid
  sourceNodeId : Uuid
  sourceVersionId : Uuid
  nodeId : Uuid
  parentId : Uuid
  keyEpoch : Nat
  parentKeyEpoch : Nat
  versionId : Uuid
  envelopeLength : Nat
  signed : Bool
  now : Nat
  deriving DecidableEq

/-- `envelopeLengthFor`: the key alone under suite 1, else with the sizes. -/
def envelopeLengthFor (contentSuite : Nat) : Nat :=
  if contentSuite = 1 then 72 else 84

/-- A node's current version with its object, as the inner joins read it. -/
def currentVersion
    (db : Database)
    (node : Node) : Option (Uuid × Version × Uuid × StoredObject) := do
  let versionId ← node.currentVersionId
  let version ← db.versions.get? versionId
  let objectId ← version.objectId
  let object ← db.objects.get? objectId
  some (versionId, version, objectId, object)

/-- The object a copy shares: that of the version the client rewrapped. -/
def copySource
    (db : Database)
    (input : CopyFile) : Except Answer (Uuid × StoredObject) := do
  let source ← walkTo db input.workspaceId input.sourceNodeId .file .notFound
  refuseIf source.trashed Answer.trashed
  let (versionId, version, objectId, object) ←
    orRefuse (currentVersion db source.node) .stale
  refuseIf (versionId ≠ input.sourceVersionId ∨ version.status ≠ .ready)
    Answer.stale
  refuseIf (object.status ≠ .ready) (Answer.unavailable object.status)
  .ok (objectId, object)

/-- The rows a copy inserts once it may spend. -/
def insertCopied
    (db : Database)
    (input : CopyFile)
    (objectId : Uuid)
    (cost : Nat)
    (parent : Walk)
    (changeSeq : Nat) : Except Answer Database := do
  let withNode ← insertNode db input.nodeId
    (newNodeRow input.workspaceId (some input.parentId) .file input.keyEpoch
      input.parentKeyEpoch (some changeSeq)) .conflict
  let withVersion ← insertVersion withNode input.versionId
    input.envelopeLength
    { nodeId := input.nodeId
      workspaceId := input.workspaceId
      objectId := some objectId
      status := .ready
      supersededAt := none }
  let paid := withVersion.adjustStorage input.workspaceId cost 0
  let current := paid.setNode input.nodeId fun node =>
    { node with currentVersionId := some input.versionId }
  .ok (raiseHeightBounds current parent.path 0)

/-- `copyFileOnce`, under the lock. -/
def copyFileBody
    (input : CopyFile)
    (changeSeq : Nat)
    (db : Database) : Body := do
  let (objectId, object) ← copySource db input
  let parent ← parentFor db input.workspaceId input.parentId input.keyEpoch
    input.parentKeyEpoch
  refuseIf (input.envelopeLength ≠ envelopeLengthFor object.contentSuite)
    Answer.invalid
  refuseIf (!input.signed) Answer.badSignature
  let storage ← orRefuse (storageFigures db input.workspaceId input.now)
    .notFound
  refuseIf (storage.free < object.ciphertextSize)
    (Answer.overQuota (named storage.free))
  let copied ← insertCopied db input objectId object.ciphertextSize parent
    changeSeq
  .ok (.published input.nodeId none, copied)

/-- `copyFile`: only `ok` is kept. -/
def copyFile (db : Database) (input : CopyFile) : Answer × Database :=
  keepingUnderLock db input.workspaceId (some input.userId) input.now
    fun changeSeq locked => copyFileBody input changeSeq locked

end Copying

section Swapping

/-- A ready version of a workspace, by its id. -/
def readyVersion
    (db : Database)
    (workspaceId versionId : Uuid) : Option Version :=
  (db.versions.get? versionId).filter fun row =>
    row.workspaceId = workspaceId && row.status = .ready

/-- A walk to a node that is not purged, or not found. -/
def walkKept (db : Database) (nodeId : Uuid) : Except Answer Walk := do
  let chain ← orRefuse (walk db nodeId) .notFound
  refuseIf chain.purged Answer.notFound
  .ok chain

/-- The two versions swap: the displaced one becomes the earlier one. -/
def swapVersions
    (db : Database)
    (nodeId versionId displaced : Uuid)
    (changeSeq now : Nat) : Database :=
  (((db.setVersion displaced fun row =>
      { row with supersededAt := some now }).setVersion versionId fun row =>
        { row with supersededAt := none }).setNode nodeId fun node =>
          { node with
            currentVersionId := some versionId
            changeSeq := some changeSeq })

/-- `restoreVersion`: a superseded version becomes current again. -/
def restoreVersion
    (db : Database)
    (workspaceId versionId : Uuid)
    (writer : Option Uuid)
    (now : Nat) : Answer × Database :=
  underLock db workspaceId writer now fun changeSeq locked => do
    let row ← orRefuse (readyVersion locked workspaceId versionId) .notFound
    let object ← orRefuse (row.objectId.bind locked.objects.get?) .notFound
    let chain ← walkKept locked row.nodeId
    refuseIf chain.trashed Answer.trashed
    let displaced ← orRefuse chain.node.currentVersionId .notSuperseded
    refuseIf (displaced = versionId ∨ row.supersededAt = none)
      Answer.notSuperseded
    refuseIf (object.status ≠ .ready) (Answer.unavailable object.status)
    .ok (.displaced displaced,
      swapVersions locked row.nodeId versionId displaced changeSeq now)

/-- A version as a purge reads it. -/
def purgedVersion
    (db : Database)
    (versionId : Uuid)
    (row : Version) : PurgedVersion where
  id := versionId
  status := row.status
  objectId := row.objectId
  size := db.sizeOf row.objectId

/-- `discardVersion`: an earlier version goes now; the current one never. -/
def discardVersion
    (db : Database)
    (workspaceId versionId : Uuid)
    (writer : Option Uuid)
    (now : Nat) : Answer × Database :=
  underLock db workspaceId writer now fun _ locked => do
    let row ← orRefuse (readyVersion locked workspaceId versionId) .notFound
    let chain ← walkKept locked row.nodeId
    refuseIf
      (chain.node.currentVersionId = some versionId ∨
        row.supersededAt = none)
      Answer.current
    .ok (.ok,
      purgeVersion locked workspaceId (purgedVersion locked versionId row))

/--
One row of `purgeExpiredSupersededVersions`, chosen before its transaction:
purged if it is still ready and not its node's current version.
-/
def purgeSuperseded
    (db : Database)
    (versionId : Uuid)
    (now : Nat) : Answer × Database :=
  match db.versions.get? versionId with
  | none => (.ok, db)
  | some chosen =>
    underLock db chosen.workspaceId none now fun _ locked => do
      let row ← orRefuse (locked.versions.get? versionId) .notFound
      refuseIf
        (row.status ≠ .ready ∨
          (locked.nodes.get? row.nodeId).bind Node.currentVersionId =
            some versionId)
        Answer.current
      .ok (.ok,
        purgeVersion locked chosen.workspaceId
          (purgedVersion locked versionId row))

end Swapping

section Purging

/-- `purgeRefusal`: why a node may not be deleted forever. -/
def purgeRefusal (chain : Option Walk) (workspaceId : Uuid) : Option Outcome :=
  match chain with
  | none => some .notFound
  | some chain =>
    if !chain.here workspaceId then
      some .notFound
    else if chain.node.parentId = none then
      some .root
    else if chain.node.trashedAt = none then
      some .notTrashed
    else
      none

/-- A batch's refusal as a single write answers it. -/
def Outcome.answer : Outcome → Answer
  | .root => .root
  | .notTrashed => .notTrashed
  | .trashed => .trashed
  | .removed => .removed
  | .parentTrashed => .parentTrashed
  | _ => .notFound

/-- Refuse with an outcome, if there is one. -/
def refuseWith : Option Outcome → Except Answer Unit
  | none => .ok ()
  | some outcome => .error outcome.answer

/-- `purgeNode`: delete forever, of one trashed node. -/
def purgeNode
    (db : Database)
    (workspaceId nodeId : Uuid)
    (writer : Option Uuid)
    (now : Nat) : Answer × Database :=
  underLock db workspaceId writer now fun changeSeq locked => do
    refuseWith (purgeRefusal (walk locked nodeId) workspaceId)
    let purged ← purgeOne locked workspaceId nodeId changeSeq none now
    .ok (.ok, purged)

def MAX_NODE_BATCH : Nat := 200

/-- Whether a batch names between one and the most, each once. -/
def batchValid (nodeIds : List Uuid) : Bool :=
  1 ≤ nodeIds.length && nodeIds.length ≤ MAX_NODE_BATCH &&
    decide nodeIds.Nodup

/-- The nodes of a batch that pass, in the order given. -/
def passing
    (refusal : Uuid → Option Outcome)
    (nodeIds : List Uuid) : List Uuid :=
  nodeIds.filter fun id => (refusal id).isNone

/-- The outermost of the batch's passing nodes above one, if any. -/
def coveredBy
    (db : Database)
    (passed : List Uuid)
    (id : Uuid) : Option Uuid :=
  (walk db id).bind fun chain =>
    (chain.ancestors.find? fun ancestor =>
      passed.contains ancestor.id).map Ancestor.id

/-- The nodes of a batch that go: passing, and inside no other that does. -/
def going
    (db : Database)
    (refusal : Uuid → Option Outcome)
    (nodeIds : List Uuid) : List Uuid :=
  let passed := passing refusal nodeIds
  passed.filter fun id => (coveredBy db passed id).isNone

/-- Purge nodes one after the other, each with the next change number. -/
def purgeEach
    (workspaceId now : Nat)
    (above : Uuid → List Uuid) :
    List Uuid → Nat → Database → Except Answer Database
  | [], _, db => .ok db
  | id :: rest, changeSeq, db => do
      let purged ← purgeOne db workspaceId id changeSeq (some (above id)) now
      purgeEach workspaceId now above rest (changeSeq + 1) purged

/-- The ids above a node, root first, as the batch's walks found them. -/
def idsAbove (db : Database) (id : Uuid) : List Uuid :=
  ((walk db id).map fun chain => chain.ancestors.map Ancestor.id).getD []

/-- What a batch answers of one node it was asked to purge. -/
def purgeOutcome
    (db : Database)
    (refusal : Uuid → Option Outcome)
    (passed done : List Uuid)
    (firstSeq : Nat)
    (id : Uuid) : Outcome :=
  match refusal id with
  | some outcome => outcome
  | none =>
    match coveredBy db passed id with
    | some by_ =>
      -- Covered by one left for the next request: left with it.
      if done.contains by_ then
        .covered by_
      else
        .busy
    | none =>
      match done.idxOf? id with
      | some index => .done (firstSeq + index)
      | none => .busy

/--
`purgeNodes`: delete forever for a selection of a member's.  `inBudget` is how
many it purges before its time is up; at least one goes, the rest are `busy`.
-/
def purgeNodes
    (db : Database)
    (workspaceId : Uuid)
    (nodeIds : List Uuid)
    (writer : Uuid)
    (inBudget now : Nat) : Answer × Database :=
  if !batchValid nodeIds then
    (.thrown .range, db)
  else if !holdsWorkspace db writer workspaceId then
    (.outcomes (nodeIds.map fun id => (id, .notFound)), db)
  else
    underLock db workspaceId (some writer) now fun firstSeq locked => do
      let refusal := fun id => purgeRefusal (walk locked id) workspaceId
      let passed := passing refusal nodeIds
      let done := (going locked refusal nodeIds).take (max 1 inBudget)
      let purged ← purgeEach workspaceId now (idsAbove locked) done firstSeq
        locked
      .ok
        (.outcomes (nodeIds.map fun id =>
          (id, purgeOutcome locked refusal passed done firstSeq id)),
          moreChangeSeqs purged workspaceId (done.length - 1))

/-- Whether a node's parent is purged: what the fan-out looks for. -/
def parentPurged (db : Database) (node : Node) : Bool :=
  match node.parentId.bind db.nodes.get? with
  | none => false
  | some parent => parent.purgedAt.isSome

/-- One row of `purgeDescendants`: a node whose parent is purged. -/
def purgeDescendant
    (db : Database)
    (nodeId : Uuid)
    (now : Nat) : Answer × Database :=
  match db.nodes.get? nodeId with
  | none => (.ok, db)
  | some node =>
    if parentPurged db node then
      underLock db node.workspaceId none now fun changeSeq locked => do
        let purged ← purgeOne locked node.workspaceId nodeId changeSeq none
          now
        .ok (.ok, purged)
    else
      (.ok, db)

/-- Whether a tombstone is past its window and has no child left. -/
def tombstoneDue (db : Database) (cutoff id : Nat) (row : Node) : Bool :=
  (match row.purgedAt with
    | none => false
    | some purgedAt => decide (purgedAt < cutoff)) &&
  !db.nodes.exists_ fun _ child => child.parentId = some id

/-- Each workspace remembers the newest deletion it can no longer tell of. -/
def rememberDropped (db : Database) (dropped : List Node) : Database :=
  dropped.foldl
    (fun db row => db.setWorkspace row.workspaceId fun workspace =>
      { workspace with
        tombstonesDroppedThrough :=
          max workspace.tombstonesDroppedThrough (row.changeSeq.getD 0) })
    db

/--
`deleteExpiredTombstones`: tombstones past their window, leaves first.
`picked` are the rows the statement's limit takes.
-/
def deleteExpiredTombstones
    (db : Database)
    (cutoff : Nat)
    (picked : List Uuid) : Answer × Database :=
  let gone := fun id row =>
    decide (id ∈ picked) && tombstoneDue db cutoff id row
  (.ok,
    rememberDropped (db.deleteNodes gone)
      ((db.nodes.select gone).map Prod.snd))

end Purging

end Drive

end HushOS
