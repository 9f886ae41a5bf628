import HushOS.Drive.Versions

namespace HushOS

open Toolkit

namespace Drive

/-!
# The tree

Creating the root and folders, renaming, moving, and the trash: one node or a
selection at a time, back in place or to the root.
-/

section Creating

/-- A workspace's root, if it has one. -/
def rootOf (db : Database) (workspaceId : Uuid) : Option (Uuid × Node) :=
  (db.nodes.select fun _ row =>
    row.workspaceId = workspaceId && row.parentId.isNone).head?

/--
`createRoot`: created once; its parent key is the workspace's.  An id already
taken elsewhere is no refusal of this write, so it throws.
-/
def createRoot
    (db : Database)
    (workspaceId userId id : Uuid)
    (keyEpoch parentKeyEpoch : Nat)
    (signed : Bool)
    (now : Nat) : Answer × Database :=
  underLock db workspaceId (some userId) now fun changeSeq locked => do
    refuseIf (rootOf locked workspaceId).isSome Answer.exists_
    refuseIf (!epochWasAllocated locked workspaceId keyEpoch) Answer.stale
    refuseIf (!signed) Answer.badSignature
    let created ← insertNode locked id
      (newNodeRow workspaceId none .folder keyEpoch parentKeyEpoch
        (some changeSeq)) (.thrown .constraint)
    .ok (.ok, created)

/-- A folder a batch asks for. -/
structure NewFolder where
  id : Uuid
  parentId : Uuid
  keyEpoch : Nat
  parentKeyEpoch : Nat
  deriving DecidableEq

/-- A folder the batch made earlier, as a parent of later ones. -/
structure MadeFolder where
  depth : Nat
  keyEpoch : Nat
  /-- The ancestors of a node made under it, root first. -/
  path : List Ancestor
  deriving DecidableEq

/-- Where a batch of folders stands: its rows, its folders, its next number. -/
structure FolderBatch where
  db : Database
  made : OrderedMap Uuid MadeFolder
  changeSeq : Nat

/-- A folder's parent: one of the batch, or a walked one. -/
def folderParent
    (batch : FolderBatch)
    (workspaceId parentId : Uuid) : Except Answer MadeFolder :=
  match batch.made.get? parentId with
  | some made => .ok made
  | none => do
      let chain ← walkTo batch.db workspaceId parentId .folder
        (.about parentId .notFound)
      refuseIf chain.trashed (Answer.about parentId .parentTrashed)
      refuseIf (underUnrotatedParent batch.db workspaceId chain)
        (Answer.about parentId .rotating)
      .ok
        { depth := chain.depth
          keyEpoch := chain.node.keyEpoch
          path := chain.path }

/-- One folder of a batch, with the change number that is its own. -/
def createFolder
    (workspaceId : Uuid)
    (batch : FolderBatch)
    (folder : NewFolder) : Except Answer FolderBatch := do
  let parent ← folderParent batch workspaceId folder.parentId
  refuseIf (MAX_DEPTH < parent.depth + 1) (Answer.about folder.id .tooDeep)
  refuseIf (folder.parentKeyEpoch ≠ parent.keyEpoch)
    (Answer.about folder.parentId .stale)
  refuseIf (!epochWasAllocated batch.db workspaceId folder.keyEpoch)
    (Answer.about folder.id .stale)
  let created ← insertNode batch.db folder.id
    (newNodeRow workspaceId (some folder.parentId) .folder folder.keyEpoch
      folder.parentKeyEpoch (some batch.changeSeq))
    (.about folder.id .conflict)
  .ok
    { db := raiseHeightBounds created parent.path 0
      made := batch.made.set folder.id
        { depth := parent.depth + 1
          keyEpoch := folder.keyEpoch
          path := parent.path ++
            [{ id := folder.id
               parentId := some folder.parentId
               keyEpoch := folder.keyEpoch }] }
      changeSeq := batch.changeSeq + 1 }

/-- `createFolders`: a batch lands whole or not at all. -/
def createFolders
    (db : Database)
    (workspaceId userId : Uuid)
    (folders : List NewFolder)
    (signed : Bool)
    (now : Nat) : Answer × Database :=
  keepingUnderLock db workspaceId (some userId) now fun firstSeq locked => do
    refuseIf (!signed) Answer.badSignature
    let batch ← foldEach (createFolder workspaceId)
      { db := moreChangeSeqs locked workspaceId (folders.length - 1)
        made := .empty
        changeSeq := firstSeq }
      folders
    .ok (.ok, batch.db)

/-- `allocateKeyEpochs`: reserve node key epochs. -/
def allocateKeyEpochs
    (db : Database)
    (workspaceId : Uuid)
    (count : Nat)
    (writer : Option Uuid)
    (now : Nat) : Answer × Database :=
  if 1 ≤ count ∧ count ≤ 10000 then
    match writerMay db workspaceId writer now with
    | .error answer => (answer, db)
    | .ok _ =>
      (.ok, db.setWorkspace workspaceId fun row =>
        { row with keyEpochSeq := row.keyEpochSeq + count })
  else
    (.thrown .range, db)

end Creating

section Renaming

/--
`renameNode`: a new metadata envelope, over the version and the epoch the
client saw.
-/
def renameNode
    (db : Database)
    (workspaceId nodeId userId : Uuid)
    (metadataVersion keyEpoch : Nat)
    (signed : Bool)
    (now : Nat) : Answer × Database :=
  underLock db workspaceId (some userId) now fun changeSeq locked => do
    let chain ← walkHere locked workspaceId nodeId .notFound
    refuseIf chain.trashed Answer.trashed
    refuseIf (!signed) Answer.badSignature
    refuseIf
      (chain.node.metadataVersion ≠ metadataVersion ∨
        chain.node.keyEpoch ≠ keyEpoch)
      Answer.stale
    .ok (.ok,
      locked.setNode nodeId fun row =>
        { row with
          metadataVersion := metadataVersion + 1
          changeSeq := some changeSeq })

end Renaming

section Moving

/--
What a running rotation forbids a move: to leave its subtree, to move a node it
has reached, to move under a folder it has not.
-/
def rotationForbids
    (db : Database)
    (workspaceId : Uuid)
    (chain destination : Walk) : Bool :=
  match activeRotation db workspaceId with
  | none => false
  | some (_, rotation) =>
    chain.node.prevKey.isSome ||
      (chain.inside rotation.nodeId &&
        !destination.inside rotation.nodeId) ||
      underUnrotatedParent db workspaceId destination

/-- The checks of `moveNode`: the node's walk and its destination's. -/
def moveWalks
    (db : Database)
    (workspaceId nodeId parentId : Uuid)
    (parentKeyEpoch : Nat) : Except Answer (Walk × Walk) := do
  let chain ← walkHere db workspaceId nodeId .notFound
  refuseIf (chain.node.parentId = none) Answer.root
  refuseIf chain.trashed Answer.trashed
  let destination ← walkTo db workspaceId parentId .folder .notFound
  refuseIf destination.trashed Answer.parentTrashed
  refuseIf (destination.inside nodeId) Answer.cycle
  refuseIf (MAX_DEPTH < destination.depth + 1 + chain.node.heightBound)
    Answer.tooDeep
  refuseIf (rotationForbids db workspaceId chain destination) Answer.rotating
  refuseIf (parentKeyEpoch ≠ destination.node.keyEpoch) Answer.stale
  .ok (chain, destination)

/-- `moveNode`: one row, whatever the size of the subtree. -/
def moveNode
    (db : Database)
    (workspaceId : Uuid)
    (writer : Option Uuid)
    (nodeId parentId : Uuid)
    (parentKeyEpoch now : Nat) : Answer × Database :=
  underLock db workspaceId writer now fun changeSeq locked => do
    let (chain, destination) ←
      moveWalks locked workspaceId nodeId parentId parentKeyEpoch
    let moved := locked.setNode nodeId fun row =>
      { row with
        parentId := some parentId
        parentKeyEpoch := parentKeyEpoch
        changeSeq := some changeSeq }
    let told := recordShareEvents moved changeSeq nodeId
      (chain.ancestors.map Ancestor.id)
      (destination.path.map Ancestor.id)
    .ok (.ok,
      raiseHeightBounds told destination.path chain.node.heightBound)

end Moving

section Trashing

/-- `trashRefusal`: why a node may not go to the trash. -/
def trashRefusal (chain : Option Walk) (workspaceId : Uuid) : Option Outcome :=
  match chain with
  | none => some .notFound
  | some chain =>
    if !chain.here workspaceId then
      some .notFound
    else if chain.node.parentId = none then
      some .root
    else if chain.trashed then
      some .trashed
    else
      none

/-- `trashNode`. -/
def trashNode
    (db : Database)
    (workspaceId nodeId : Uuid)
    (writer : Option Uuid)
    (now : Nat) : Answer × Database :=
  underLock db workspaceId writer now fun changeSeq locked => do
    refuseWith (trashRefusal (walk locked nodeId) workspaceId)
    .ok (.ok, markTrashed locked [nodeId] changeSeq (some now))

/-- The role the nearest live share on a node or above it gives. -/
def sharedRole
    (db : Database)
    (userId : Uuid)
    (chain : Walk) : Option Bool :=
  let ids := chain.id :: (chain.ancestors.map Ancestor.id).reverse
  let sharesOn := fun id =>
    db.shares.select fun _ share =>
      share.nodeId = id && share.granteeUserId = userId &&
        share.revokedAt.isNone && share.served
  (ids.flatMap sharesOn).head?.map fun entry => entry.2.editor

/-- `accessFor`, as far as the trash asks: whether the user may trash a node. -/
def trashAccess
    (db : Database)
    (workspaceId userId : Uuid)
    (chain : Option Walk) : Option Outcome :=
  match chain with
  | none => some .notFound
  | some chain =>
    if !chain.here workspaceId then
      some .notFound
    else if holdsWorkspace db userId chain.node.workspaceId then
      none
    else
      match sharedRole db userId chain with
      | none => some .notFound
      | some true => none
      | some false => some .forbidden

/-- Why a writer may not trash a node in a batch. -/
def trashBatchRefusal
    (db : Database)
    (workspaceId writer id : Uuid) : Option Outcome :=
  let chain := walk db id
  if holdsWorkspace db writer workspaceId then
    trashRefusal chain workspaceId
  else
    (trashAccess db workspaceId writer chain).or
      (trashRefusal chain workspaceId)

/-- What a batch answers of one node it was asked to trash. -/
def trashOutcome
    (db : Database)
    (refusal : Uuid → Option Outcome)
    (passed gone : List Uuid)
    (firstSeq : Nat)
    (id : Uuid) : Outcome :=
  match refusal id with
  | some outcome => outcome
  | none =>
    match coveredBy db passed id with
    | some by_ => .covered by_
    | none => .done (firstSeq + (gone.idxOf? id).getD 0)

/--
`trashNodes`: a selection to the trash, refusals one by one.  Access of someone
who is not a member is asked before the lock: with nothing they may trash, the
lock is never taken.
-/
def trashNodes
    (db : Database)
    (workspaceId : Uuid)
    (nodeIds : List Uuid)
    (writer : Uuid)
    (now : Nat) : Answer × Database :=
  let barred := fun id => trashAccess db workspaceId writer (walk db id)
  if !batchValid nodeIds then
    (.thrown .range, db)
  else if !holdsWorkspace db writer workspaceId &&
      nodeIds.all fun id => (barred id).isSome then
    (.outcomes (nodeIds.map fun id => (id, (barred id).getD .notFound)), db)
  else
    underLock db workspaceId (some writer) now fun firstSeq locked => do
      let refusal := trashBatchRefusal locked workspaceId writer
      let gone := going locked refusal nodeIds
      .ok
        (.outcomes (nodeIds.map fun id =>
          (id, trashOutcome locked refusal (passing refusal nodeIds) gone
            firstSeq id)),
          markTrashed
            (moreChangeSeqs locked workspaceId (gone.length - 1)) gone
            firstSeq (some now))

/-- `removeNode`: an operator's removal, which the owner cannot restore. -/
def removeNode
    (db : Database)
    (workspaceId nodeId : Uuid)
    (now : Nat) : Answer × Database :=
  underLock db workspaceId none now fun changeSeq locked => do
    let chain ← walkHere locked workspaceId nodeId .notFound
    refuseIf (chain.node.parentId = none) Answer.root
    .ok (.ok,
      revokeShares
        (locked.setNode nodeId fun row =>
          { row with
            trashedAt := some (row.trashedAt.getD now)
            removedAt := some now
            changeSeq := some changeSeq })
        nodeId now)

end Trashing

section Restoring

/-- `restoreRefusal`: why a node may not come back from the trash. -/
def restoreRefusal
    (chain : Option Walk)
    (workspaceId : Uuid) : Option Outcome :=
  match chain with
  | none => some .notFound
  | some chain =>
    if !chain.here workspaceId then
      some .notFound
    else if chain.node.trashedAt = none then
      some .notTrashed
    else if chain.node.removedAt.isSome then
      some .removed
    else
      none

/-- The checks of a restore to the root: its walk. -/
def restoreRoot
    (db : Database)
    (workspaceId : Uuid)
    (chain : Walk)
    (parentKeyEpoch : Nat) : Except Answer Walk := do
  let root ← orRefuse (walk db chain.rootId) .notFound
  refuseIf (underUnrotatedParent db workspaceId root) Answer.rotating
  refuseIf (parentKeyEpoch ≠ root.node.keyEpoch) Answer.stale
  refuseIf (MAX_DEPTH < 1 + chain.node.heightBound) Answer.tooDeep
  .ok root

/--
`restoreNode`: back in place, or with a folder above it in the trash, to the
root under the key the caller wrapped it with (`toRoot` is that key's epoch).
-/
def restoreNode
    (db : Database)
    (workspaceId : Uuid)
    (writer : Option Uuid)
    (nodeId : Uuid)
    (toRoot : Option Nat)
    (now : Nat) : Answer × Database :=
  underLock db workspaceId writer now fun changeSeq locked => do
    refuseWith (restoreRefusal (walk locked nodeId) workspaceId)
    let chain ← orRefuse (walk locked nodeId) .notFound
    if chain.trashedAncestors = [] then
      .ok (.ok, markTrashed locked [nodeId] changeSeq none)
    else do
      let parentKeyEpoch ← orRefuse toRoot .parentTrashed
      let root ← restoreRoot locked workspaceId chain parentKeyEpoch
      let restored := locked.setNode nodeId fun row =>
        { row with
          trashedAt := none
          changeSeq := some changeSeq
          parentId := some chain.rootId
          parentKeyEpoch := parentKeyEpoch }
      .ok (.ok,
        raiseHeightBounds restored
          [ancestorOf (root.id, root.node)] chain.node.heightBound)

/-- One pass over those waiting: each comes back once all above it are back. -/
def restorePass
    (above : Uuid → List Uuid) :
    List Uuid → List Uuid → List Uuid × List Uuid
  | [], back => ([], back)
  | id :: rest, back =>
    if (above id).all back.contains then
      restorePass above rest (back ++ [id])
    else
      let (waiting, after) := restorePass above rest back
      (id :: waiting, after)

/-- Passes until none comes back: those still waiting, and those back in order. -/
def restorePasses
    (above : Uuid → List Uuid) :
    Nat → List Uuid → List Uuid → List Uuid × List Uuid
  | 0, waiting, back => (waiting, back)
  | passes + 1, waiting, back =>
    let (left, after) := restorePass above waiting back
    if left.length = waiting.length then
      (left, after)
    else
      restorePasses above passes left after

/-- The trashed folders above a node, root first. -/
def trashedAbove (db : Database) (id : Uuid) : List Uuid :=
  ((walk db id).map Walk.trashedAncestors).getD []

/-- Those of a batch that come back, in the order they do. -/
def comingBack
    (db : Database)
    (workspaceId : Uuid)
    (nodeIds : List Uuid) : List Uuid :=
  let waiting := nodeIds.filter fun id =>
    (restoreRefusal (walk db id) workspaceId).isNone
  (restorePasses (trashedAbove db) waiting.length waiting []).2

/-- What a batch answers of one node it was asked to restore. -/
def restoreOutcome
    (db : Database)
    (workspaceId : Uuid)
    (back : List Uuid)
    (firstSeq : Nat)
    (id : Uuid) : Outcome :=
  match restoreRefusal (walk db id) workspaceId with
  | some outcome => outcome
  | none =>
    match back.idxOf? id with
    | some index => .done (firstSeq + index)
    | none => .parentTrashed

/-- `restoreNodes`: nodes back where they were, outer ones first. -/
def restoreNodes
    (db : Database)
    (workspaceId : Uuid)
    (nodeIds : List Uuid)
    (writer : Uuid)
    (now : Nat) : Answer × Database :=
  if !batchValid nodeIds then
    (.thrown .range, db)
  else
    underLock db workspaceId (some writer) now fun firstSeq locked => do
      let back := comingBack locked workspaceId nodeIds
      .ok
        (.outcomes (nodeIds.map fun id =>
          (id, restoreOutcome locked workspaceId back firstSeq id)),
          markTrashed
            (moreChangeSeqs locked workspaceId (back.length - 1)) back
            firstSeq none)

end Restoring

end Drive

end HushOS
