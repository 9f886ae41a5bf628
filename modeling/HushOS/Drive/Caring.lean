import HushOS.Drive.Trails

namespace HushOS

open Toolkit

namespace Drive

/-!
# What a run asks of its writes

Conditions on a write and the tables it finds, as the write's own checks find
them: which branch is taken, and what stands on the node it is about.  `careOf`
puts them together; what they buy is proved in the modules that follow.
-/

section Branches

/-- What `finishCompleting` comes to on an upload, under its locks. -/
def Completes
    (db : Database)
    (workspaceId uploadId : Uuid)
    (storedSize : Option Nat)
    (move : Option MoveRecord)
    (writer : Option Uuid)
    (now : Nat)
    (row : Upload)
    (ending : Ending) : Prop :=
  ∃ changeSeq sourceSeq locked,
    lockForCompletion db workspaceId writer move now =
      .ok (changeSeq, sourceSeq, locked) ∧
    getUpload locked workspaceId uploadId = some row ∧
    (row.status = .completing ∨ row.status = .conflicted) ∧
    endingOf locked workspaceId row storedSize move sourceSeq now = ending

/-- What `attachUpload` comes to on an upload, under its locks. -/
def Attaches
    (db : Database)
    (workspaceId uploadId : Uuid)
    (input : AttachInput)
    (move : Option MoveRecord)
    (writer : Option Uuid)
    (now : Nat)
    (row : Upload)
    (attaching : Attaching) : Prop :=
  ∃ changeSeq sourceSeq locked,
    lockForCompletion db workspaceId writer move now =
      .ok (changeSeq, sourceSeq, locked) ∧
    getUpload locked workspaceId uploadId = some row ∧
    row.status = .conflicted ∧
    attachingOf locked workspaceId row input move sourceSeq now =
      .ok attaching

/-- Whether `abortUpload` releases an upload. -/
def Aborts
    (db : Database)
    (workspaceId uploadId : Uuid)
    (force : Bool)
    (row : Upload) : Prop :=
  getUpload db workspaceId uploadId = some row ∧
    (row.status = .open_ ∨ row.status = .conflicted ∨
      (row.status = .completing ∧ force = true))

/--
Whether a write drops the node an upload made: the upload is released, or
attached as a sibling.
-/
def Drops (db : Database) (row : Upload) : Op → Prop
  | .finishCompleting workspaceId uploadId storedSize move writer now =>
    row.newNode = true ∧ ∃ answer,
      Completes db workspaceId uploadId storedSize move writer now row
        (.release answer)
  | .attachUpload workspaceId uploadId input move writer now =>
    row.newNode = true ∧
      ((∃ answer,
          Attaches db workspaceId uploadId input move writer now row
            (.release answer)) ∨
        ∃ parent id keyEpoch parentKeyEpoch,
          Attaches db workspaceId uploadId input move writer now row
              (.sibling parent id keyEpoch parentKeyEpoch) ∧
            db.nodes.get? id = none)
  | .abortUpload workspaceId uploadId force _ =>
    row.newNode = true ∧ Aborts db workspaceId uploadId force row
  | _ => False

end Branches

/--
No node goes with a version on it that is not purged: not with the upload that
made it, and not as a tombstone.
-/
def Spares (db : Database) (op : Op) : Prop :=
  (∀ row, Drops db row op → AloneOn db row) ∧
    ∀ cutoff picked, op = .deleteExpiredTombstones cutoff picked →
      ∀ id ∈ picked, ∀ row, db.nodes.get? id = some row →
        tombstoneDue db cutoff id row = true → Spent db id

/-- No node that people see goes with the upload that made it. -/
def Hides (db : Database) (op : Op) : Prop :=
  ∀ row, Drops db row op → ∀ node,
    db.nodes.get? row.nodeId = some node → ¬ node.seen

/-- Whether a node, if it is there, was shown. -/
def ShownAt (db : Database) (id : Uuid) : Prop :=
  ∀ row, db.nodes.get? id = some row → row.changeSeq ≠ none

/--
A write shows a node for the first time only by publishing the upload that made
it, and only within the depth.
-/
def Shallow (db : Database) : Op → Prop
  | .renameNode _ nodeId _ _ _ _ _ => ShownAt db nodeId
  | .trashNode _ nodeId _ _ => ShownAt db nodeId
  | .trashNodes _ nodeIds _ _ => ∀ id ∈ nodeIds, ShownAt db id
  | .removeNode _ nodeId _ => ShownAt db nodeId
  | .finishCompleting workspaceId uploadId storedSize move writer now =>
    ∀ row chain size displaced,
      Completes db workspaceId uploadId storedSize move writer now row
        (.publish chain size displaced) →
      if row.newNode then
        chain.depth ≤ MAX_DEPTH
      else
        ShownAt db row.nodeId
  | .attachUpload workspaceId uploadId input move writer now =>
    ∀ row chain,
      Attaches db workspaceId uploadId input move writer now row
        (.publish chain) →
      ShownAt db row.nodeId
  | _ => True

/-- Whether a version stands on a node. -/
def StandsOn (db : Database) (versionId nodeId : Uuid) : Prop :=
  ∃ row, db.versions.get? versionId = some row ∧ row.nodeId = nodeId

/-- Whether a version stands on a node whose current version is another. -/
def OlderOn (db : Database) (versionId nodeId : Uuid) : Prop :=
  StandsOn db versionId nodeId ∧
    ∀ node, db.nodes.get? nodeId = some node →
      node.currentVersionId ≠ some versionId

/--
The versions a write takes: those it discards, those of the nodes it purges, of
the file whose move it completes, and those older than what a publish displaces.
-/
def Takes (db : Database) (versionId : Uuid) : Op → Prop
  | .discardVersion _ discarded _ _ => versionId = discarded
  | .purgeSuperseded purged _ => versionId = purged
  | .purgeNode _ nodeId _ _ => StandsOn db versionId nodeId
  | .purgeNodes _ nodeIds _ _ _ => ∃ id ∈ nodeIds, StandsOn db versionId id
  | .purgeDescendant nodeId _ => StandsOn db versionId nodeId
  | .finishCompleting workspaceId uploadId storedSize move writer now =>
    ∃ row chain size displaced,
      Completes db workspaceId uploadId storedSize move writer now row
        (.publish chain size displaced) ∧
      (OlderOn db versionId row.nodeId ∨
        ∃ source, move = some source ∧
          StandsOn db versionId source.nodeId)
  | .attachUpload workspaceId uploadId input move writer now =>
    ∃ row attaching,
      Attaches db workspaceId uploadId input move writer now row
        attaching ∧
      (∀ answer, attaching ≠ .release answer) ∧
      ((∃ chain, attaching = .publish chain ∧
          OlderOn db versionId row.nodeId) ∨
        ∃ source, move = some source ∧
          StandsOn db versionId source.nodeId)
  | _ => False

/-- The nodes a write purges: those asked for, and the file whose move it completes. -/
def Buries (db : Database) (id : Uuid) : Op → Prop
  | .purgeNode _ nodeId _ _ => id = nodeId
  | .purgeNodes _ nodeIds _ _ _ => id ∈ nodeIds
  | .purgeDescendant nodeId _ => id = nodeId
  | .finishCompleting workspaceId uploadId storedSize move writer now =>
    ∃ row chain size displaced source,
      Completes db workspaceId uploadId storedSize move writer now row
        (.publish chain size displaced) ∧
      move = some source ∧ id = source.nodeId
  | .attachUpload workspaceId uploadId input move writer now =>
    ∃ row attaching source,
      Attaches db workspaceId uploadId input move writer now row
        attaching ∧
      (∀ answer, attaching ≠ .release answer) ∧
      move = some source ∧ id = source.nodeId
  | _ => False

/-- The id and the key a write stores an object under. -/
def Stores (id : Uuid) (key : ObjectKey) : Op → Prop
  | .beginUpload input => input.object.id = id ∧ input.object.objectKey = key
  | _ => False

/-- What a write meets of what a run may ask. -/
def careOf (db : Database) (op : Op) : Care where
  spares := Spares db op
  hides := Hides db op
  shallow := Shallow db op
  takes := fun versionId => Takes db versionId op
  buries := fun id => Buries db id op
  stores := fun id key => Stores id key op

end Drive

end HushOS
