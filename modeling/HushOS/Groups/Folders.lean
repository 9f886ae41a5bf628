import HushOS.Acceptance.AreaHistory
import HushOS.Groups.Calls

namespace HushOS

open Toolkit

namespace Groups

/-!
# Family folders

The workspaces a group's chain lists as areas, each with its root, its
self-grants, its documents and the Drive rotation running in it.  A roster's
rows are judged against the chain outside the group's lock; its folder, its
deletion and its rotations are written under it.  Drive writes, which take the
folder's lock only, land between.

The folder's other nodes are kept as the epochs they carry; envelopes are the
texts they are stored as.
-/

/-- A folder's root, with the key it had while a rotation runs. -/
structure AreaRoot where
  id : String
  keyEpoch : Nat
  parentKeyEpoch : Nat
  keyEnvelope : String
  prevKeyEnvelope : Option String
  prevKeyEpoch : Option Nat
  prevParentKeyEpoch : Option Nat
  changeSeq : Nat
  deriving DecidableEq, Repr

/-- A Drive rotation running in a folder. -/
structure Rotation where
  nodeId : String
  targetEpoch : Nat
  deriving DecidableEq, Repr

/-- A workspace document, at its version. -/
structure Document where
  version : Nat
  envelope : String
  deriving DecidableEq, Repr

/-- A family folder. -/
structure Area where
  workspaceKeyVersion : Nat
  deleted : Bool
  keyEpochSeq : Nat
  changeSeq : Nat
  root : AreaRoot
  otherNodes : OrderedMap String (Nat × Option Nat)
  selfGrants : OrderedMap String Nat
  documents : OrderedMap String Document
  running : Option Rotation

/-- A group's chain, as far as its areas go, and its folders. -/
structure Folders where
  rosters : List Roster
  head : Roster
  chainRevision : Nat
  areas : OrderedMap String Area

/-- Every area row of the stored chain, in order. -/
def Folders.rows (folders : Folders) : List RosterArea :=
  folders.rosters.flatMap Roster.areas

/-- What the stored chain lists of its areas. -/
def Folders.ledger (folders : Folders) : AreaLedger :=
  AreaLedger.of folders.rows

/-- A new folder, with its root and its creator's self-grant. -/
structure AreaInput where
  workspaceId : String
  rootId : String
  keyEnvelope : String
  keyEpoch : Nat
  parentKeyEpoch : Nat
  selfGrantVersion : Option Nat
  deriving DecidableEq, Repr

/-- A document a rotation re-seals, at the version it replaces. -/
structure RotationDocument where
  kind : String
  version : Nat
  envelope : String
  deriving DecidableEq, Repr

/-- A folder's rotation: its root re-keyed, its documents re-sealed. -/
structure RotationInput where
  workspaceId : String
  fromVersion : Nat
  toVersion : Nat
  targetEpoch : Nat
  rootId : String
  rootChangeSeq : Nat
  rootParentKeyEpoch : Nat
  rootKeyEnvelope : String
  rootRotated : Bool
  previousRootKeyEnvelope : String
  selfGrantVersion : Nat
  documents : List RotationDocument
  deriving DecidableEq, Repr

/-- What a roster route's call does to the folders. -/
structure FolderCall where
  uploader : String
  expectedRevision : Nat
  route : ChainRoute
  roster : ReadRoster
  newArea : Option AreaInput
  retireArea : Option String
  rotations : List RotationInput
  /-- Whether what other tables answer refuses it. -/
  elsewhere : Bool

/-- A row as the call and its roster are compared by. -/
abbrev RowName : Type := String × Nat × Bool

/-- A roster's rows, by area, version and whether they retire it. -/
def rowNames (roster : Roster) : List RowName :=
  roster.areas.map fun row =>
    (row.workspaceId, row.workspaceKeyVersion, row.retired)

/-- The rows a call accounts for. -/
def expectedRows (ledger : AreaLedger) (call : FolderCall) : List RowName :=
  (call.newArea.toList.map fun area => (area.workspaceId, 1, false)) ++
    (call.rotations.map fun rotation =>
      (rotation.workspaceId, rotation.toVersion, false)) ++
    call.retireArea.toList.map fun workspaceId =>
      (workspaceId, (ledger.keys.listAt workspaceId).length + 1, true)

/-- A roster's rows are exactly those its call accounts for. -/
def checkAreaRows (roster : Roster) (expected : List RowName) :
    Except Refusal Unit :=
  refuseIf (¬ (rowNames roster).Perm expected) (.invalid "area-rows")

/-- The highest epoch a folder's nodes carry or carried. -/
def Area.carried (area : Area) : Nat :=
  (area.otherNodes.values.map fun node => max node.1 (node.2.getD 0)).foldl max
    (max area.root.keyEpoch (area.root.prevKeyEpoch.getD 0))

/-- Whether a running rotation re-keyed any node. -/
def Area.progressed (area : Area) (running : Rotation) : Bool :=
  area.root.keyEpoch = running.targetEpoch ||
    area.otherNodes.values.any fun node => node.1 = running.targetEpoch

/-- A new folder of the group. -/
def insertArea
    (uploader : String)
    (given : AreaInput)
    (folders : Folders) : Except Refusal Folders := do
  refuseIf
    (∃ version ∈ given.selfGrantVersion, version ≠ 1)
    (.invalid "area-key-version")
  refuseIf (folders.areas.has given.workspaceId = true) (.invalid "area-taken")
  refuseIf (given.keyEpoch ≠ 1 ∨ given.parentKeyEpoch ≠ 1)
    (.invalid "area-root-epoch")
  .ok { folders with
    areas := folders.areas.set given.workspaceId
      { workspaceKeyVersion := 1
        deleted := false
        keyEpochSeq := 1
        changeSeq := 1
        root :=
          { id := given.rootId
            keyEpoch := given.keyEpoch
            parentKeyEpoch := given.parentKeyEpoch
            keyEnvelope := given.keyEnvelope
            prevKeyEnvelope := none
            prevKeyEpoch := none
            prevParentKeyEpoch := none
            changeSeq := 1 }
        otherNodes := .empty
        selfGrants := OrderedMap.empty.set uploader
          (given.selfGrantVersion.getD 1)
        documents := .empty
        running := none } }

/-- A live folder of the group. -/
def liveArea (folders : Folders) (workspaceId reason : String) :
    Except Refusal Area :=
  match folders.areas.get? workspaceId with
  | some area =>
    if area.deleted then .error (.invalid reason) else .ok area
  | none => .error (.invalid reason)

/-- A folder's deletion: marked so, and served no more. -/
def retireArea (workspaceId : String) (folders : Folders) :
    Except Refusal Folders := do
  let area ← liveArea folders workspaceId "area"
  .ok { folders with
    areas := folders.areas.set workspaceId { area with deleted := true } }

/-- The rotation a roster starts, again after closing one that re-keyed nothing. -/
def startByRoster (area : Area) (nodeId : String) (targetEpoch : Nat) :
    Except Refusal Area := do
  refuseIf (∃ running ∈ area.running, area.progressed running = true)
    .elsewhere
  refuseIf (area.keyEpochSeq < targetEpoch ∨ targetEpoch ≤ area.carried)
    .stale
  .ok { area with
    changeSeq := area.changeSeq + if area.running.isSome then 2 else 1
    running := some { nodeId, targetEpoch } }

/--
The root re-keyed at the rotation's epoch under the area's version: its old
envelope kept, unless one is.  A re-wrap never comes here, since a roster's
rotation asks for a re-key.
-/
def rotateRoot (area : Area) (given : RotationInput) : Except Refusal Area := do
  refuseIf (area.root.changeSeq ≠ given.rootChangeSeq) .stale
  refuseIf (given.rootParentKeyEpoch ≠ area.workspaceKeyVersion) .stale
  refuseIf
    (decide (given.targetEpoch ≤ area.root.keyEpoch) = given.rootRotated)
    .stale
  .ok { area with
    changeSeq := area.changeSeq + 1
    root :=
      { area.root with
        prevKeyEnvelope :=
          some (area.root.prevKeyEnvelope.getD area.root.keyEnvelope)
        prevKeyEpoch := some (area.root.prevKeyEpoch.getD area.root.keyEpoch)
        prevParentKeyEpoch :=
          some (area.root.prevParentKeyEpoch.getD area.root.parentKeyEpoch)
        keyEnvelope := given.rootKeyEnvelope
        keyEpoch := given.targetEpoch
        parentKeyEpoch := given.rootParentKeyEpoch
        changeSeq := area.changeSeq + 1 } }

/-- Every document at the next version, as the call sealed it. -/
def resealDocuments (area : Area) (given : List RotationDocument) : Area :=
  { area with
    documents := given.foldl
      (fun documents document =>
        documents.update
          (fun kind stored =>
            kind = document.kind && stored.version = document.version)
          fun _ =>
            { version := document.version + 1
              envelope := document.envelope })
      area.documents }

/-- A folder's rotation inside the chain write. -/
def applyRotation
    (uploader : String)
    (folders : Folders)
    (given : RotationInput) : Except Refusal Folders := do
  let area ← liveArea folders given.workspaceId "rotation-area"
  refuseIf
    (area.workspaceKeyVersion ≠ given.fromVersion ∨
      given.toVersion ≠ given.fromVersion + 1)
    (.invalid "rotation-version")
  refuseIf (given.selfGrantVersion ≠ given.toVersion)
    (.invalid "rotation-self-grant")
  refuseIf
    (given.rootRotated = false ∨ given.rootParentKeyEpoch ≠ given.toVersion)
    (.invalid "rotation-root")
  refuseIf (area.root.id ≠ given.rootId) (.invalid "rotation-root")
  let granted := { area with
    selfGrants := area.selfGrants.set uploader given.selfGrantVersion }
  let started ← startByRoster granted area.root.id given.targetEpoch
  refuseIf (area.root.prevKeyEnvelope.isSome = true) .elsewhere
  let moved ← rotateRoot
    { started with workspaceKeyVersion := given.toVersion } given
  -- The old root key under the new area key, not as the Drive batch kept it.
  let kept := { moved with
    root :=
      { moved.root with
        prevKeyEnvelope := some given.previousRootKeyEnvelope
        prevKeyEpoch := some area.root.keyEpoch
        prevParentKeyEpoch := some given.toVersion } }
  .ok { folders with
    areas := folders.areas.set given.workspaceId
      (resealDocuments kept given.documents) }

/-- Every stored document of each rotated folder is in the call as it is. -/
def checkRotationDocuments (folders : Folders) (given : RotationInput) :
    Except Refusal Unit :=
  match folders.areas.get? given.workspaceId with
  | none => .error (.invalid "rotation-area")
  | some area => do
      refuseIf (¬ (given.documents.map RotationDocument.kind).Nodup)
        (.invalid "rotation-documents")
      refuseIf
        (∃ document ∈ given.documents,
          area.documents.has document.kind = false)
        (.invalid "rotation-documents")
      refuseIf
        (∃ entry ∈ area.documents.entries, ∀ document ∈ given.documents,
          document.kind = entry.1 → document.version ≠ entry.2.version)
        .stale

/-- A part of the call its route may lack. -/
def folderPart
    (write : α → Folders → Except Refusal Folders)
    (part : Option α)
    (folders : Folders) : Except Refusal Folders :=
  match part with
  | some given => write given folders
  | none => .ok folders

/-- What a write of the chain does to the folders, under its lock. -/
def appendFolders (folders : Folders) (call : FolderCall) :
    Except Refusal Folders := do
  refuseIf (call.elsewhere = true) .elsewhere
  refuseIf (folders.chainRevision ≠ call.expectedRevision) .stale
  let inserted ← folderPart (insertArea call.uploader) call.newArea folders
  let retired ← folderPart retireArea call.retireArea inserted
  forEach (checkRotationDocuments retired) call.rotations
  let rotated ← foldEach (applyRotation call.uploader) retired call.rotations
  .ok { rotated with
    rosters := folders.rosters ++ [call.roster.val]
    head := call.roster.val
    chainRevision := folders.chainRevision + 1 }

/-- What a call read of the chain's areas. -/
structure FolderReading where
  head : Roster
  ledger : AreaLedger
  revision : Nat

/--
A route carries a new folder or a deletion only where it is theirs, and a
deletion nothing else: no entry, and no rotation.
-/
def folderShape (head : Roster) (call : FolderCall) : Except Refusal Unit := do
  refuseIf (call.newArea.isSome = true ∧ call.route ≠ .area)
    (.invalid "area-rows")
  refuseIf
    (call.retireArea.isSome = true ∧
      (call.route ≠ .retire ∨ call.rotations ≠ [] ∨
        changesOf head call.roster.val ≠ []))
    (.invalid "area-delete")

/-- A roster route's call: the chain's area rules, its rows, and its write. -/
def writeFolders
    (folders : Folders)
    (reading : FolderReading)
    (call : FolderCall) : Except Refusal Folders := do
  refuseIf (reading.revision ≠ call.expectedRevision) .stale
  folderShape reading.head call
  refuseIf (¬ Follows reading.head call.roster.val) (.invalid "roster-chain")
  refuseIf
    ((checkAreas reading.ledger (some reading.head) call.roster.val).isOk =
      false)
    (.invalid "roster-chain")
  checkAreaRows call.roster.val (expectedRows reading.ledger call)
  appendFolders folders call

/-- What a Drive write may do in a folder it has locked. -/
inductive DriveWrite where
  /-- Epochs are drawn. -/
  | allocate (count : Nat)
  /-- Nodes under the root are made, re-keyed, moved or purged. -/
  | nodes (otherNodes : OrderedMap String (Nat × Option Nat))
  /-- The root's name or trash changes. -/
  | touchRoot
  /-- A rotation starts at a node, at an epoch drawn for it. -/
  | start (nodeId : String)
  /-- A batch of the rotation running names the root. -/
  | rotateRoot (given : RotationInput)
  /-- The rotation running is done: its nodes' previous envelopes go. -/
  | finish (coversRoot : Bool)
  | putDocument (kind : String) (version : Nat) (envelope : String)
  | putSelfGrant (userId : String) (version : Nat)
  | replacePreviousRoot (envelope : String)
  /-- Someone's access goes. -/
  | revoke (userId : String)

/-- A Drive write in one folder. -/
def driveWrite (area : Area) : DriveWrite → Except Refusal Area
  | .allocate count => .ok { area with
      keyEpochSeq := area.keyEpochSeq + count }
  | .nodes otherNodes => .ok { area with
      changeSeq := area.changeSeq + 1
      otherNodes }
  | .touchRoot => .ok { area with
      changeSeq := area.changeSeq + 1
      root := { area.root with changeSeq := area.changeSeq + 1 } }
  | .start nodeId => do
      refuseIf (area.running.isSome = true) .elsewhere
      .ok { area with
        keyEpochSeq := area.keyEpochSeq + 1
        changeSeq := area.changeSeq + 1
        running := some { nodeId, targetEpoch := area.keyEpochSeq + 1 } }
  -- A group area's root is re-keyed or re-wrapped only by a roster.
  | .rotateRoot _ => .error .forbidden
  | .finish coversRoot => .ok { area with
      changeSeq := area.changeSeq + 1
      running := none
      root :=
        if coversRoot then
          { area.root with
            prevKeyEnvelope := none
            prevKeyEpoch := none
            prevParentKeyEpoch := none }
        else
          area.root }
  | .putDocument kind version envelope =>
    match area.documents.get? kind with
    | some stored => do
        refuseIf (stored.version ≠ version) .stale
        .ok { area with
          documents := area.documents.set kind
            { version := version + 1, envelope } }
    | none => do
        refuseIf (version ≠ 0) .stale
        .ok { area with
          documents := area.documents.set kind { version := 1, envelope } }
  | .putSelfGrant userId version => do
      refuseIf (version ≠ area.workspaceKeyVersion) .stale
      .ok { area with selfGrants := area.selfGrants.set userId version }
  | .replacePreviousRoot envelope => do
      refuseIf
        (area.running.map Rotation.nodeId ≠ some area.root.id ∨
          area.root.prevKeyEnvelope.isNone = true ∨
          area.root.prevParentKeyEpoch ≠ some area.workspaceKeyVersion)
        .elsewhere
      .ok { area with
        changeSeq := area.changeSeq + 1
        root :=
          { area.root with
            prevKeyEnvelope := some envelope
            changeSeq := area.changeSeq + 1 } }
  | .revoke userId => .ok { area with
      selfGrants := area.selfGrants.erase userId }

/-- A group's folders with the calls under way. -/
structure Cabinet where
  folders : Folders
  calls : OrderedMap Nat FolderReading

/-- One step of anyone. -/
inductive FolderMove where
  | read (number : Nat)
  | write (number : Nat) (call : FolderCall)
  /-- A succession on its own: the chain moves on, its areas do not. -/
  | succeed (expectedRevision : Nat)
  | drive (workspaceId : String) (write : DriveWrite)
  | purge (workspaceId : String)

/-- What a move answers of the folders. -/
def Cabinet.attempt (cabinet : Cabinet) : FolderMove → Except Refusal Folders
  | .read _ => .ok cabinet.folders
  | .write number call =>
    match cabinet.calls.get? number with
    | some reading => writeFolders cabinet.folders reading call
    | none => .error .stale
  | .succeed expectedRevision => do
      refuseIf (cabinet.folders.chainRevision ≠ expectedRevision) .stale
      .ok { cabinet.folders with
        chainRevision := cabinet.folders.chainRevision + 1 }
  | .drive workspaceId write =>
    match cabinet.folders.areas.get? workspaceId with
    | some area => do
        let after ← driveWrite area write
        .ok { cabinet.folders with
          areas := cabinet.folders.areas.set workspaceId after }
    | none => .error (.invalid "area")
  | .purge workspaceId =>
    match cabinet.folders.areas.get? workspaceId with
    | some area =>
      if area.deleted then
        .ok { cabinet.folders with
          areas := cabinet.folders.areas.erase workspaceId }
      else
        .error (.invalid "area")
    | none => .error (.invalid "area")

/-- One step: what it answers of the folders, where it is not refused. -/
def Cabinet.step (cabinet : Cabinet) (move : FolderMove) : Cabinet where
  folders :=
    match cabinet.attempt move with
    | .ok folders => folders
    | .error _ => cabinet.folders
  calls :=
    match move with
    | .read number =>
      cabinet.calls.set number
        { head := cabinet.folders.head
          ledger := cabinet.folders.ledger
          revision := cabinet.folders.chainRevision }
    | _ => cabinet.calls

/-- The states after a run of steps. -/
abbrev Cabinet.run (cabinet : Cabinet) (moves : List FolderMove) : Cabinet :=
  Runs.run Cabinet.step cabinet moves

/-- A family just made, with its first folder. -/
def createFolders
    (creatorUserId : String)
    (first : ReadRoster)
    (area : AreaInput) : Except Refusal Folders := do
  refuseIf ((checkAreas .empty none first.val).isOk = false)
    (.invalid "roster-chain")
  refuseIf (first.val.rosterVersion ≠ 1) (.invalid "first-roster")
  checkAreaRows first.val [(area.workspaceId, 1, false)]
  insertArea creatorUserId area
    { rosters := [first.val]
      head := first.val
      chainRevision := 1
      areas := .empty }

/-- A cabinet with nothing under way. -/
def Cabinet.start (folders : Folders) : Cabinet where
  folders := folders
  calls := .empty

end Groups

end HushOS
