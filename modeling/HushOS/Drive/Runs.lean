import HushOS.Drive.Rotations

namespace HushOS

open Toolkit

namespace Drive

/-!
# Runs of Drive

Everything that writes the Drive tables, each transaction one step of a run:
the writes of people and of the sweeps, and around them what accounts, groups,
billing and the store's audit change.
-/

/-- The tables before anyone signed up. -/
def Database.empty : Database where
  workspaces := .empty
  storage := .empty
  nodes := .empty
  objects := .empty
  versions := .empty
  uploads := .empty
  deletions := .empty
  rotations := .empty
  shares := .empty
  shareEvents := []
  accounts :=
    { billing := false
      workspaceKeys := []
      memberships := []
      holds := []
      personalWorkspaces := .empty
      companies := []
      groupStorage := .empty
      entitlements := [] }

/-- A workspace is made with its storage row, nothing in it yet. -/
def openWorkspace
    (db : Database)
    (id : Uuid)
    (groupId : Option Uuid)
    (baseQuotaBytes : Nat) : Answer × Database :=
  if db.workspaces.has id || db.storage.has id then
    (.conflict, db)
  else
    (.ok,
      { db with
        workspaces := db.workspaces.set id
          { changeSeq := 0
            keyEpochSeq := 0
            workspaceKeyVersion := 1
            tombstonesDroppedThrough := 0
            groupId := groupId
            deletedAt := none }
        storage := db.storage.set id
          { baseQuotaBytes := baseQuotaBytes
            usedBytes := 0
            reservedBytes := 0 } })

/-- A group area a manager deletes is served to no one from then. -/
def retireArea (db : Database) (id now : Nat) : Database :=
  db.setWorkspace id fun row =>
    if row.groupId.isSome && row.deletedAt.isNone then
      { row with deletedAt := some now }
    else
      row

/-- A share of a node that is there. -/
def grantShare
    (db : Database)
    (id : Uuid)
    (share : Share) : Answer × Database :=
  if db.shares.has id || !db.nodes.has share.nodeId then
    (.conflict, db)
  else
    (.ok, { db with shares := db.shares.set id share })

/-- A share is revoked. -/
def revokeShare (db : Database) (id now : Nat) : Database :=
  { db with
    shares := db.shares.update
      (fun key share => key = id && share.revokedAt.isNone)
      fun share => { share with revokedAt := some now } }

/-- `recordObjectAudit`: what the audit found at the store. -/
def recordObjectAudit (db : Database) (id : Uuid) (missing : Bool) : Database :=
  db.setObject id fun row =>
    if row.status = .pending then
      row
    else
      { row with status := if missing then .missing else .ready }

/-- `markObjectReplicated`, on the object's row or on its outbox row. -/
def markObjectReplicated (db : Database) (id now : Nat) : Database :=
  { db.setObject id fun row => { row with replicatedAt := some now } with
    deletions := db.deletions.update (byId id) fun row =>
      { row with replicated := true } }

/-- One write. -/
inductive Op where
  | openWorkspace (id : Uuid) (groupId : Option Uuid) (baseQuotaBytes : Nat)
  | retireArea (id now : Nat)
  | setKeyVersion (id version : Nat)
  | settleAccounts (accounts : Accounts)
  | grantShare (id : Uuid) (share : Share)
  | revokeShare (id now : Nat)
  | recordObjectAudit (id : Uuid) (missing : Bool)
  | markObjectReplicated (id now : Nat)
  | createRoot
      (workspaceId userId id : Uuid)
      (keyEpoch parentKeyEpoch : Nat)
      (signed : Bool)
      (now : Nat)
  | createFolders
      (workspaceId userId : Uuid)
      (folders : List NewFolder)
      (signed : Bool)
      (now : Nat)
  | allocateKeyEpochs
      (workspaceId : Uuid)
      (count : Nat)
      (writer : Option Uuid)
      (now : Nat)
  | renameNode
      (workspaceId nodeId userId : Uuid)
      (metadataVersion keyEpoch : Nat)
      (signed : Bool)
      (now : Nat)
  | moveNode
      (workspaceId : Uuid)
      (writer : Option Uuid)
      (nodeId parentId : Uuid)
      (parentKeyEpoch now : Nat)
  | trashNode
      (workspaceId nodeId : Uuid)
      (writer : Option Uuid)
      (now : Nat)
  | trashNodes
      (workspaceId : Uuid)
      (nodeIds : List Uuid)
      (writer : Uuid)
      (now : Nat)
  | removeNode (workspaceId nodeId : Uuid) (now : Nat)
  | restoreNode
      (workspaceId : Uuid)
      (writer : Option Uuid)
      (nodeId : Uuid)
      (toRoot : Option Nat)
      (now : Nat)
  | restoreNodes
      (workspaceId : Uuid)
      (nodeIds : List Uuid)
      (writer : Uuid)
      (now : Nat)
  | beginUpload (input : UploadBegin)
  | startCompleting
      (workspaceId uploadId : Uuid)
      (writer : Option Uuid)
      (now : Nat)
  | finishCompleting
      (workspaceId uploadId : Uuid)
      (storedSize : Option Nat)
      (move : Option MoveRecord)
      (writer : Option Uuid)
      (now : Nat)
  | attachUpload
      (workspaceId uploadId : Uuid)
      (input : AttachInput)
      (move : Option MoveRecord)
      (writer : Option Uuid)
      (now : Nat)
  | abortUpload (workspaceId uploadId : Uuid) (force : Bool) (now : Nat)
  | copyFile (input : CopyFile)
  | restoreVersion
      (workspaceId versionId : Uuid)
      (writer : Option Uuid)
      (now : Nat)
  | discardVersion
      (workspaceId versionId : Uuid)
      (writer : Option Uuid)
      (now : Nat)
  | purgeSuperseded (versionId : Uuid) (now : Nat)
  | purgeNode
      (workspaceId nodeId : Uuid)
      (writer : Option Uuid)
      (now : Nat)
  | purgeNodes
      (workspaceId : Uuid)
      (nodeIds : List Uuid)
      (writer : Uuid)
      (inBudget now : Nat)
  | purgeDescendant (nodeId : Uuid) (now : Nat)
  | deleteExpiredTombstones (cutoff : Nat) (picked : List Uuid)
  | startRotation
      (workspaceId nodeId : Uuid)
      (startedBy : Option Uuid)
      (targetEpoch : Option Nat)
      (byRoster : Bool)
      (rotationId now : Nat)
  | rotateNode
      (workspaceId rootId targetEpoch userId : Nat)
      (byRoster : Bool)
      (item : RotatedItem)
      (now : Nat)
  | finishRotation (workspaceId rootId : Uuid) (now : Nat)

/-- What a write answers, and the tables it leaves. -/
def answer (db : Database) : Op → Answer × Database
  | .openWorkspace id groupId baseQuotaBytes =>
    openWorkspace db id groupId baseQuotaBytes
  | .retireArea id now => (.ok, retireArea db id now)
  | .setKeyVersion id version =>
    (.ok, db.setWorkspace id fun row =>
      { row with workspaceKeyVersion := version })
  | .settleAccounts accounts => (.ok, { db with accounts := accounts })
  | .grantShare id share => grantShare db id share
  | .revokeShare id now => (.ok, revokeShare db id now)
  | .recordObjectAudit id missing => (.ok, recordObjectAudit db id missing)
  | .markObjectReplicated id now => (.ok, markObjectReplicated db id now)
  | .createRoot workspaceId userId id keyEpoch parentKeyEpoch signed now =>
    createRoot db workspaceId userId id keyEpoch parentKeyEpoch signed now
  | .createFolders workspaceId userId folders signed now =>
    createFolders db workspaceId userId folders signed now
  | .allocateKeyEpochs workspaceId count writer now =>
    allocateKeyEpochs db workspaceId count writer now
  | .renameNode workspaceId nodeId userId metadataVersion keyEpoch signed
      now =>
      renameNode db workspaceId nodeId userId metadataVersion keyEpoch signed
        now
  | .moveNode workspaceId writer nodeId parentId parentKeyEpoch now =>
    moveNode db workspaceId writer nodeId parentId parentKeyEpoch now
  | .trashNode workspaceId nodeId writer now =>
    trashNode db workspaceId nodeId writer now
  | .trashNodes workspaceId nodeIds writer now =>
    trashNodes db workspaceId nodeIds writer now
  | .removeNode workspaceId nodeId now =>
    removeNode db workspaceId nodeId now
  | .restoreNode workspaceId writer nodeId toRoot now =>
    restoreNode db workspaceId writer nodeId toRoot now
  | .restoreNodes workspaceId nodeIds writer now =>
    restoreNodes db workspaceId nodeIds writer now
  | .beginUpload input => beginUpload db input
  | .startCompleting workspaceId uploadId writer now =>
    startCompleting db workspaceId uploadId writer now
  | .finishCompleting workspaceId uploadId storedSize move writer now =>
    finishCompleting db workspaceId uploadId storedSize move writer now
  | .attachUpload workspaceId uploadId input move writer now =>
    attachUpload db workspaceId uploadId input move writer now
  | .abortUpload workspaceId uploadId force now =>
    abortUpload db workspaceId uploadId force now
  | .copyFile input => copyFile db input
  | .restoreVersion workspaceId versionId writer now =>
    restoreVersion db workspaceId versionId writer now
  | .discardVersion workspaceId versionId writer now =>
    discardVersion db workspaceId versionId writer now
  | .purgeSuperseded versionId now => purgeSuperseded db versionId now
  | .purgeNode workspaceId nodeId writer now =>
    purgeNode db workspaceId nodeId writer now
  | .purgeNodes workspaceId nodeIds writer inBudget now =>
    purgeNodes db workspaceId nodeIds writer inBudget now
  | .purgeDescendant nodeId now => purgeDescendant db nodeId now
  | .deleteExpiredTombstones cutoff picked =>
    deleteExpiredTombstones db cutoff picked
  | .startRotation workspaceId nodeId startedBy targetEpoch byRoster
      rotationId now =>
      startRotation db workspaceId nodeId startedBy targetEpoch byRoster
        rotationId now
  | .rotateNode workspaceId rootId targetEpoch userId byRoster item now =>
    rotateNode db workspaceId rootId targetEpoch userId byRoster item now
  | .finishRotation workspaceId rootId now =>
    finishRotation db workspaceId rootId now

/-- The tables after a write. -/
def step (db : Database) (op : Op) : Database :=
  (answer db op).2

/-- The tables after a run of writes. -/
def run (db : Database) (ops : List Op) : Database :=
  ops.foldl step db

@[simp] theorem run_cons (db : Database) (op : Op) (ops : List Op) :
    run db (op :: ops) = run (step db op) ops :=
  rfl

theorem run_append (db : Database) (first second : List Op) :
    run db (first ++ second) = run (run db first) second :=
  List.foldl_append

/-- Whether every write of a run meets a condition in the tables it finds. -/
def Each (meets : Database → Op → Prop) : Database → List Op → Prop
  | _, [] => True
  | db, op :: rest => meets db op ∧ Each meets (step db op) rest

theorem keeps_of_each
    {meets : Database → Op → Prop}
    (invariant : Database → Prop)
    (keeps : ∀ db op, meets db op → invariant db → invariant (step db op))
    {db : Database}
    {ops : List Op}
    (each : Each meets db ops)
    (holds : invariant db) :
    invariant (run db ops) := by
  induction ops generalizing db with
  | nil =>
    exact holds
  | cons op rest inductionHypothesis =>
    exact inductionHypothesis each.2 (keeps db op each.1 holds)

theorem keeps_of_step
    (invariant : Database → Prop)
    (keeps : ∀ db op, invariant db → invariant (step db op))
    {db : Database}
    (ops : List Op)
    (holds : invariant db) :
    invariant (run db ops) := by
  induction ops generalizing db with
  | nil =>
    exact holds
  | cons op rest inductionHypothesis =>
    exact inductionHypothesis (keeps db op holds)

end Drive

end HushOS
