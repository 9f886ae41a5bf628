import HushOS.Drive.Tables

namespace HushOS

open Toolkit

namespace Drive

/-!
# Walks, locks and who may write

Every write first takes the workspace's next change sequence, which locks the
workspace, and reads the tree by walks: from a node up to its root, no more
than `WALK_CAP` rows.  What a transaction answers and what it leaves follow
from its checks by one of two rules, kept here.
-/

/-- Why a transaction throws; everything it wrote is undone. -/
inductive Thrown where
  /-- The writer's access to the group area ended. -/
  | ended
  /-- A holder holds the writer ahead of a removal. -/
  | held
  /-- The workspace is not there. -/
  | missing
  /-- A constraint of the schema refuses a row. -/
  | constraint
  /-- A batch names too many items, none, or one twice. -/
  | range
  deriving DecidableEq

/-- One node's outcome in a batch. -/
inductive Outcome where
  | done (changeSeq : Nat)
  | covered (by_ : Uuid)
  | notFound
  | forbidden
  | root
  | trashed
  | notTrashed
  | removed
  | parentTrashed
  | busy
  deriving DecidableEq

/-- The answer of a write, the texts of its `status`. -/
inductive Answer where
  | ok
  | begun (uploadId : Uuid)
  | completing (stale : Bool)
  | published (nodeId : Uuid) (displaced : Option Uuid)
  | displaced (versionId : Uuid)
  | conflicted (currentVersionId : Option Uuid)
  | outcomes (each : List (Uuid × Outcome))
  | exists_
  | notFound
  /-- A refusal that names the item it is about. -/
  | about (id : Uuid) (answer : Answer)
  | root
  | cycle
  | trashed
  | parentTrashed
  | notTrashed
  | removed
  | rotating
  | stale
  | tooDeep
  | badSignature
  | conflict
  | moving
  | policy
  | invalid
  | overQuota (free : Int)
  | completed
  | aborted
  | expired
  | notCompleting (status : UploadStatus)
  | notConflicted (status : UploadStatus)
  | isCompleting
  | isConflicted
  | sizeMismatch
  | purged
  | moveStale
  | unavailable (status : ObjectStatus)
  | notSuperseded
  | active
  | parentNotReady
  | already
  | forbidden
  | unsupported
  | current
  | thrown (reason : Thrown)
  deriving DecidableEq

/-- Whether an answer is a thrown error. -/
def Answer.throws : Answer → Bool
  | .thrown _ => true
  | _ => false

section Walks

/-- A node above another, as a walk gives it. -/
structure Ancestor where
  id : Uuid
  parentId : Option Uuid
  keyEpoch : Nat
  deriving DecidableEq

/-- A walk from a node up to its root. -/
structure Walk where
  id : Uuid
  node : Node
  /-- Root first, ending with the node's parent; empty for the root. -/
  ancestors : List Ancestor
  /-- The root is 0. -/
  depth : Nat
  /-- The node or any ancestor. -/
  trashed : Bool
  /-- The ancestors with a trash time of their own, root first. -/
  trashedAncestors : List Uuid
  purged : Bool
  rootId : Uuid
  deriving DecidableEq

/-- The rows from a node upwards, the node first, no more than `cap` of them. -/
def chainFrom
    (nodes : OrderedMap Uuid Node) :
    Nat → Uuid → List (Uuid × Node)
  | 0, _ => []
  | cap + 1, id =>
    match nodes.get? id with
    | none => []
    | some node =>
      (id, node) ::
        match node.parentId with
        | none => []
        | some parentId => chainFrom nodes cap parentId

/-- A row of a chain as an ancestor. -/
def ancestorOf (row : Uuid × Node) : Ancestor where
  id := row.1
  parentId := row.2.parentId
  keyEpoch := row.2.keyEpoch

/-- `chainWalk`: a walk from its chain's rows; null when they reach no root. -/
def chainWalk : List (Uuid × Node) → Option Walk
  | [] => none
  | self :: above =>
    let rows := self :: above
    let top := above.getLast?.getD self
    if top.2.parentId = none then
      some
        { id := self.1
          node := self.2
          ancestors := above.reverse.map ancestorOf
          depth := above.length
          trashed := rows.any fun row => row.2.trashedAt.isSome
          trashedAncestors :=
            ((above.filter fun row => row.2.trashedAt.isSome).map
              Prod.fst).reverse
          purged := rows.any fun row => row.2.purgedAt.isSome
          rootId := top.1 }
    else
      none

/-- `walk`: a chain that reaches no root within the cap is not found. -/
def walk (db : Database) (nodeId : Uuid) : Option Walk :=
  chainWalk (chainFrom db.nodes WALK_CAP nodeId)

/-- The ancestors of a node made under a walked one, root first. -/
def Walk.path (parent : Walk) : List Ancestor :=
  parent.ancestors ++ [ancestorOf (parent.id, parent.node)]

/-- Whether a walked node is another or stands below it. -/
def Walk.inside (walked : Walk) (nodeId : Uuid) : Bool :=
  walked.id = nodeId ||
    walked.ancestors.any fun ancestor => ancestor.id = nodeId

/-- A walk to a node of this workspace that is not purged. -/
def Walk.here (walked : Walk) (workspaceId : Uuid) : Bool :=
  walked.node.workspaceId = workspaceId && !walked.purged

end Walks

section Writers

/--
`holdsWorkspace`: the user holds the workspace's key, the workspace is not
deleted, and it is personal or an area of a group they are active in.
-/
def holdsWorkspace (db : Database) (userId workspaceId : Uuid) : Bool :=
  match db.workspaces.get? workspaceId with
  | none => false
  | some workspace =>
    db.accounts.workspaceKeys.any (fun key =>
      key.userId = userId && key.workspaceId = workspaceId) &&
    workspace.deletedAt.isNone &&
    match workspace.groupId with
    | none => true
    | some groupId =>
      db.accounts.memberships.any fun membership =>
        membership.groupId = groupId &&
          membership.userId = userId && membership.active

/-- Whether a holder holds the user in the group now. -/
def heldIn (db : Database) (groupId userId : Uuid) (now : Nat) : Bool :=
  db.accounts.holds.any fun hold =>
    hold.groupId = groupId && hold.userId = userId && now < hold.expiresAt

/-- Whether the user holds a live editor share in the workspace. -/
def holdsEditorShare (db : Database) (workspaceId userId : Uuid) : Bool :=
  db.shares.exists_ fun _ share =>
    share.workspaceId = workspaceId && share.granteeUserId = userId &&
      share.editor && share.revokedAt.isNone

/--
`requireStillWriter`, under the workspace's lock: in a group area the writer
is not held (a roster's own writes skip this) and is a member or a live editor.
-/
def requireStillWriter
    (db : Database)
    (workspaceId writer : Uuid)
    (groupId : Option Uuid)
    (roster : Bool)
    (now : Nat) : Except Answer Unit :=
  match groupId with
  | none => .ok ()
  | some groupId => do
      refuseIf (!roster && heldIn db groupId writer now)
        (Answer.thrown .held)
      refuseIf
        (!(holdsWorkspace db writer workspaceId ||
          holdsEditorShare db workspaceId writer))
        (Answer.thrown .ended)

/-- Take change numbers: the counter moves by as many. -/
def moreChangeSeqs
    (db : Database)
    (workspaceId : Uuid)
    (count : Nat) : Database :=
  db.setWorkspace workspaceId fun row =>
    { row with changeSeq := row.changeSeq + count }

/-- `nextChangeSeq`: the next change number, with the writer checked. -/
def nextChangeSeq
    (db : Database)
    (workspaceId : Uuid)
    (writer : Option Uuid)
    (roster : Bool)
    (now : Nat) : Except Answer (Nat × Database) :=
  match db.workspaces.get? workspaceId with
  | none => .error (.thrown .missing)
  | some row => do
      let locked := moreChangeSeqs db workspaceId 1
      match writer with
      | none => .ok ()
      | some writer =>
        requireStillWriter locked workspaceId writer row.groupId roster now
      .ok (row.changeSeq + 1, locked)

/--
`mayStillRemove`: the user holds the workspace and no holder holds them in its
group.
-/
def mayStillRemove
    (db : Database)
    (userId workspaceId : Uuid)
    (now : Nat) : Bool :=
  holdsWorkspace db userId workspaceId &&
    match (db.workspaces.get? workspaceId).bind Workspace.groupId with
    | none => true
    | some groupId => !heldIn db groupId userId now

/-- `epochWasAllocated`. -/
def epochWasAllocated
    (db : Database)
    (workspaceId : Uuid)
    (keyEpoch : Nat) : Bool :=
  match db.workspaces.get? workspaceId with
  | none => false
  | some row => 1 ≤ keyEpoch && keyEpoch ≤ row.keyEpochSeq

end Writers

section Rotations

/-- `activeRotation`: the rotation running in a workspace, if any. -/
def activeRotation
    (db : Database)
    (workspaceId : Uuid) : Option (Uuid × Rotation) :=
  (db.rotations.select fun _ rotation =>
    rotation.workspaceId = workspaceId && rotation.finishedAt.isNone).head?

/--
`underUnrotatedParent`: in a group area, whether a walked node is inside the
running rotation's subtree and not reached by it: below the target, or at the
target and still wrapped under an older key of its parent.
-/
def underUnrotatedParent
    (db : Database)
    (workspaceId : Uuid)
    (parent : Walk) : Bool :=
  match activeRotation db workspaceId with
  | none => false
  | some (_, rotation) =>
    parent.inside rotation.nodeId &&
    !(decide (rotation.targetEpoch ≤ parent.node.keyEpoch) &&
      (parent.node.parentId.isNone ||
        decide (rotation.targetEpoch ≤ parent.node.parentKeyEpoch))) &&
    match db.workspaces.get? workspaceId with
    | none => false
    | some workspace => workspace.groupId.isSome

end Rotations

section Transactions

/-- What a body of a transaction comes to: a refusal, or an answer and the rows. -/
abbrev Body := Except Answer (Answer × Database)

/--
`db.transaction` under the workspace's lock.  A refusal commits what the lock
wrote; a thrown error undoes everything.  A roster's own writes skip holds.
-/
def underRosterLock
    (db : Database)
    (workspaceId : Uuid)
    (writer : Option Uuid)
    (roster : Bool)
    (now : Nat)
    (body : Nat → Database → Body) : Answer × Database :=
  match nextChangeSeq db workspaceId writer roster now with
  | .error answer => (answer, db)
  | .ok (changeSeq, locked) =>
    match body changeSeq locked with
    | .error answer => (answer, if answer.throws then db else locked)
    | .ok result => result

/-- `db.transaction` under the workspace's lock, of a Drive write. -/
def underLock
    (db : Database)
    (workspaceId : Uuid)
    (writer : Option Uuid)
    (now : Nat)
    (body : Nat → Database → Body) : Answer × Database :=
  underRosterLock db workspaceId writer false now body

/--
`transactionKeeping` under the workspace's lock: a refusal is returned with
every write before it undone.
-/
def keepingUnderLock
    (db : Database)
    (workspaceId : Uuid)
    (writer : Option Uuid)
    (now : Nat)
    (body : Nat → Database → Body) : Answer × Database :=
  match nextChangeSeq db workspaceId writer false now with
  | .error answer => (answer, db)
  | .ok (changeSeq, locked) =>
    match body changeSeq locked with
    | .error answer => (answer, db)
    | .ok result => result

/-- Read what is there, or refuse. -/
def orRefuse (found : Option α) (answer : Answer) : Except Answer α :=
  match found with
  | none => .error answer
  | some value => .ok value

/-- A walk to an unpurged node of the workspace, or a refusal. -/
def walkHere
    (db : Database)
    (workspaceId nodeId : Uuid)
    (answer : Answer) : Except Answer Walk :=
  match walk db nodeId with
  | none => .error answer
  | some walked =>
    if walked.here workspaceId then .ok walked else .error answer

/-- A walk to an unpurged node of one kind, or a refusal. -/
def walkTo
    (db : Database)
    (workspaceId nodeId : Uuid)
    (kind : NodeKind)
    (answer : Answer) : Except Answer Walk := do
  let walked ← walkHere db workspaceId nodeId answer
  refuseIf (walked.node.kind ≠ kind) answer
  .ok walked

end Transactions

end Drive

end HushOS
