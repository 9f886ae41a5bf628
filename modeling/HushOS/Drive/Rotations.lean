import HushOS.Drive.Trees

namespace HushOS

open Toolkit

namespace Drive

/-!
# Subtree key rotations

One rotation a workspace: a root and a target epoch above every epoch any node
ever carried, nodes re-keyed or re-wrapped one at a time, parents first, and a
finish that clears the previous keys once nothing is left to visit.
-/

section Starting

/-- The highest epoch a node of the workspace carries, or carried. -/
def carriedEpoch (db : Database) (workspaceId : Uuid) : Nat :=
  ((db.nodes.select fun _ row => row.workspaceId = workspaceId).map
    fun entry =>
      max entry.2.keyEpoch
        ((entry.2.prevKey.map PrevKey.keyEpoch).getD 0)).foldl max 0

/-- The target of a rotation, drawn here or by its caller, and the rows after. -/
def rotationTarget
    (db : Database)
    (workspaceId : Uuid)
    (targetEpoch : Option Nat) : Except Answer (Nat × Database) := do
  let workspace ← orRefuse (db.workspaces.get? workspaceId) .notFound
  match targetEpoch with
  | none =>
    .ok (workspace.keyEpochSeq + 1,
      db.setWorkspace workspaceId fun row =>
        { row with keyEpochSeq := row.keyEpochSeq + 1 })
  | some targetEpoch =>
    refuseIf
      (workspace.keyEpochSeq < targetEpoch ∨
        targetEpoch ≤ carriedEpoch db workspaceId)
      Answer.stale
    .ok (targetEpoch, db)

/-- `startRotation`; `rotationId` is the id the table draws. -/
def startRotation
    (db : Database)
    (workspaceId nodeId : Uuid)
    (startedBy : Option Uuid)
    (targetEpoch : Option Nat)
    (byRoster : Bool)
    (rotationId now : Nat) : Answer × Database :=
  underRosterLock db workspaceId startedBy byRoster now fun _ locked => do
    let _ ← walkHere locked workspaceId nodeId .notFound
    refuseIf (activeRotation locked workspaceId).isSome Answer.active
    let (target, drawn) ← rotationTarget locked workspaceId targetEpoch
    refuseIf (drawn.rotations.has rotationId) (Answer.thrown .constraint)
    .ok (.ok,
      { drawn with
        rotations := drawn.rotations.set rotationId
          { workspaceId := workspaceId
            nodeId := nodeId
            targetEpoch := target
            finishedAt := none } })

end Starting

section Rotating

/-- What a re-keyed node's request carries beside its new key. -/
structure RotatedNode where
  /-- The versions re-sealed. -/
  versions : List Uuid
  /-- The refusal of the records' check, if any. -/
  recordsRefused : Option Answer
  /-- The shares re-sealed in the one suite written. -/
  shares : List Uuid
  deriving DecidableEq

/-- One node of a rotation batch; without `rotated` it is a re-wrap. -/
structure RotatedItem where
  id : Uuid
  changeSeq : Nat
  parentKeyEpoch : Nat
  rotated : Option RotatedNode
  deriving DecidableEq

/-- The parent rule of a batch's node: at the target, and as it was read. -/
def rotationParent
    (db : Database)
    (workspaceId rootId targetEpoch : Nat)
    (byRoster : Bool)
    (node : Node)
    (item : RotatedItem) : Except Answer Unit :=
  let parent := node.parentId.bind db.nodes.get?
  if item.id ≠ rootId then
    match parent with
    | none => .error .parentNotReady
    | some parent => do
        refuseIf (parent.keyEpoch < targetEpoch) Answer.parentNotReady
        refuseIf (parent.keyEpoch ≠ item.parentKeyEpoch) Answer.stale
  else if node.parentId.isNone then
    match db.workspaces.get? workspaceId with
    | none => .ok ()
    | some workspace => do
        refuseIf (workspace.groupId.isSome && !byRoster) Answer.forbidden
        refuseIf
          (workspace.groupId.isSome &&
            item.parentKeyEpoch ≠ workspace.workspaceKeyVersion)
          Answer.stale
  else
    match parent with
    | none => .error .stale
    | some parent =>
      refuseIf (parent.keyEpoch ≠ item.parentKeyEpoch) Answer.stale

/-- `grantedByMember`: a share's granter still stands behind it. -/
def grantedByMember (db : Database) (share : Share) : Bool :=
  match db.workspaces.get? share.workspaceId with
  | none => false
  | some workspace =>
    match workspace.groupId with
    | none => true
    | some groupId =>
      db.accounts.memberships.any fun membership =>
        membership.groupId = groupId &&
          membership.userId = share.granterUserId && membership.active

/-- The shares of a re-keyed node: re-sealed, or revoked. -/
def resealShares
    (db : Database)
    (nodeId targetEpoch : Nat)
    (sealed_ : List Uuid)
    (now : Nat) : Database :=
  { db with
    shares := (db.shares.update
      (fun id share =>
        sealed_.contains id && share.nodeId = nodeId &&
          share.revokedAt.isNone && grantedByMember db share)
      fun share => { share with keyEpoch := targetEpoch }).update
        (fun _ share =>
          share.nodeId = nodeId && share.revokedAt.isNone &&
            share.keyEpoch < targetEpoch)
        fun share => { share with revokedAt := some now } }

/-- A re-keyed node keeps its first previous key until the rotation finishes. -/
def rekeyedRow
    (targetEpoch parentKeyEpoch changeSeq : Nat)
    (row : Node) : Node :=
  { row with
    prevKey := some (row.prevKey.getD
      { keyEpoch := row.keyEpoch, parentKeyEpoch := row.parentKeyEpoch })
    keyEpoch := targetEpoch
    parentKeyEpoch := parentKeyEpoch
    changeSeq := some changeSeq }

/-- Whether a list names exactly a node's ready versions, each once. -/
def namesReady (db : Database) (nodeId : Uuid) (named : List Uuid) : Bool :=
  let ready := ((versionsWhere db fun _ row =>
    row.nodeId = nodeId && row.status = .ready).filter
      fun version => version.size.isSome).map PurgedVersion.id
  decide named.Nodup && named.length = ready.length &&
    ready.all named.contains

/-- What a batch's node writes once its parent is ready. -/
def rotateRow
    (db : Database)
    (targetEpoch : Nat)
    (node : Node)
    (item : RotatedItem)
    (changeSeq now : Nat) : Except Answer Database :=
  match decide (targetEpoch ≤ node.keyEpoch), item.rotated with
  | true, some _ => .error .stale
  | false, none => .error .stale
  | true, none => do
      refuseIf (targetEpoch ≤ node.parentKeyEpoch) Answer.already
      .ok (db.setNode item.id fun row =>
        { row with
          parentKeyEpoch := item.parentKeyEpoch
          changeSeq := some changeSeq })
  | false, some rotated => do
      refuseIf (!namesReady db item.id rotated.versions) Answer.stale
      match rotated.recordsRefused with
      | some answer => .error answer
      | none =>
        .ok (resealShares
          (db.setNode item.id
            (rekeyedRow targetEpoch item.parentKeyEpoch changeSeq))
          item.id targetEpoch rotated.shares now)

/-- `rotateNodeIn`: one node of a batch. -/
def rotateNode
    (db : Database)
    (workspaceId rootId targetEpoch userId : Nat)
    (byRoster : Bool)
    (item : RotatedItem)
    (now : Nat) : Answer × Database :=
  underRosterLock db workspaceId (some userId) byRoster now
    fun changeSeq locked => do
      let (_, rotation) ← orRefuse (activeRotation locked workspaceId)
        .notFound
      refuseIf
        (rotation.nodeId ≠ rootId ∨ rotation.targetEpoch ≠ targetEpoch)
        Answer.notFound
      let node ← orRefuse
        ((locked.nodes.get? item.id).filter fun row =>
          row.workspaceId = workspaceId && row.purgedAt.isNone)
        .notFound
      refuseIf (node.changeSeq ≠ some item.changeSeq) Answer.stale
      rotationParent locked workspaceId rootId targetEpoch byRoster node item
      let rotated ← rotateRow locked targetEpoch node item changeSeq now
      .ok (.ok, rotated)

end Rotating

section Finishing

/-- The unpurged children of any of these nodes. -/
def childrenOf (db : Database) (ids : List Uuid) : List Uuid :=
  (db.nodes.select fun _ row =>
    row.purgedAt.isNone &&
      match row.parentId with
      | none => false
      | some parentId => ids.contains parentId).map Prod.fst

/-- Level by level below these nodes, no more levels than given. -/
def levelsBelow (db : Database) : Nat → List Uuid → List Uuid
  | 0, _ => []
  | levels + 1, ids =>
    childrenOf db ids ++ levelsBelow db levels (childrenOf db ids)

/-- Every unpurged node beneath a root, as the depth-bounded queries reach it. -/
def below (db : Database) (rootId : Uuid) : List Uuid :=
  levelsBelow db MAX_DEPTH [rootId]

/-- `subtree`: the root, if it is there, and every unpurged node beneath it. -/
def subtree (db : Database) (rootId : Uuid) : List Uuid :=
  if db.nodes.has rootId then rootId :: below db rootId else []

/--
The transaction of `finishRotation`, once a listing before it found nothing
left to visit: previous keys go and the rotation is closed.
-/
def finishRotation
    (db : Database)
    (workspaceId rootId : Uuid)
    (now : Nat) : Answer × Database :=
  underLock db workspaceId none now fun _ locked => do
    let (rotationId, rotation) ← orRefuse (activeRotation locked workspaceId)
      .notFound
    refuseIf (rotation.nodeId ≠ rootId) Answer.notFound
    let ids := subtree locked rootId
    .ok (.ok,
      { locked with
        nodes := locked.nodes.update (fun id _ => ids.contains id) fun row =>
          { row with prevKey := none }
        rotations := locked.rotations.update (byId rotationId) fun row =>
          { row with finishedAt := some now } })

end Finishing

end Drive

end HushOS
