import HushOS.Drive.UploadSteps

namespace HushOS

open Toolkit List OrderedMap

namespace Drive

/-!
# Every write is a trail

Copies, versions, purges and rotations, and with them every operation: a step
from sound tables is a trail of checked changes, so every run is sound.
-/

section Copying

variable {care : Care} {db : Database}

theorem copySource_eq_ok
    {input : CopyFile}
    {objectId : Uuid}
    {object : StoredObject}
    (source : copySource db input = .ok (objectId, object)) :
    db.objects.get? objectId = some object := by
  simp only [copySource, bind_eq_ok, exists_unit, refuseIf_eq_ok,
    orRefuse_eq_ok, Except.ok.injEq, Prod.mk.injEq] at source
  obtain ⟨walked, _, _, entry, current, rest⟩ := source
  obtain ⟨versionId, version, named, stored⟩ := entry
  obtain ⟨_, _, rfl, rfl⟩ := rest
  simp only [currentVersion, Option.bind_eq_bind, Option.bind_eq_some_iff,
    Option.some.injEq, Prod.mk.injEq] at current
  obtain ⟨_, _, _, _, _, _, _, present, _, _, rfl, rfl⟩ := current
  exact present

/-- Copying a version and raising the bounds commute. -/
theorem raise_copied
    (db : Database)
    (id : Uuid)
    (row : Node)
    (change : Node → Node)
    (versionId : Uuid)
    (version : Version)
    (size : Nat)
    (path : List Ancestor) :
    raiseHeightBounds
        ((({ db with
          nodes := db.nodes.set id row
          versions := db.versions.set versionId version } :
            Database).adjustStorage version.workspaceId size 0).setNode id
              change) path 0 =
      (raiseHeightBounds { db with nodes := db.nodes.set id (change row) }
        path 0).copied versionId version size := by
  have nodes : ((({ db with
      nodes := db.nodes.set id row
      versions := db.versions.set versionId version } :
        Database).adjustStorage version.workspaceId size 0).setNode id
          change).nodes =
      ({ db with nodes := db.nodes.set id (change row) } :
        Database).nodes :=
    update_set db.nodes id row change fun _ _ => rfl
  rw [raiseHeightBounds_rest, raiseHeightBounds_nodes nodes,
    raiseHeightBounds_rest { db with nodes := db.nodes.set id (change row) }]
  rfl

theorem found_of_grown
    (db : Database)
    (id : Uuid)
    (row : Node)
    (path : List Ancestor) :
    ∃ later,
      (raiseHeightBounds { db with nodes := db.nodes.set id row } path
        0).nodes.get? id = some later ∧
      later.workspaceId = row.workspaceId := by
  refine ⟨{ row with heightBound := max row.heightBound (reach 0 id path) },
    ?_, rfl⟩
  rw [get?_raiseHeightBounds, get?_set_self]
  rfl

/-- The node's row as a copy leaves it. -/
def copiedNode (input : CopyFile) (changeSeq : Nat) : Node :=
  { newNodeRow input.workspaceId (some input.parentId) .file input.keyEpoch
      input.parentKeyEpoch (some changeSeq) with
    currentVersionId := some input.versionId }

/-- The version's row as a copy inserts it. -/
def copiedVersion (input : CopyFile) (objectId : Uuid) : Version where
  nodeId := input.nodeId
  workspaceId := input.workspaceId
  objectId := some objectId
  status := .ready
  supersededAt := none

/-- Copying a file is a trail of changes. -/
theorem trail_copyFile (sound : Sound db) (input : CopyFile) :
    Trail care db (copyFile db input).2 := by
  refine trail_keepingUnderLock fun changeSeq answer after done => ?_
  have lockedSound := sound.more input.workspaceId 1
  simp only [copyFileBody, bind_eq_ok, exists_unit, refuseIf_eq_ok,
    Except.ok.injEq, Prod.mk.injEq] at done
  obtain ⟨⟨objectId, object⟩, source, parent, forParent, _, _, storage, _, _,
    copied, inserted, _, rfl⟩ := done
  have present := copySource_eq_ok source
  obtain ⟨reached, inside, _, folder, _, within, _, _, allocated⟩ :=
    parentFor_eq_ok forParent
  have there := has_of_epoch allocated
  simp only [insertCopied, insertVersion, bind_eq_ok, exists_unit,
    refuseIf_eq_ok, insertNode_eq_ok, Except.ok.injEq, Bool.not_eq_true,
    has_eq_false] at inserted
  obtain ⟨_, ⟨fresh, rfl⟩, _, ⟨_, freshVersion, rfl⟩, rfl⟩ := inserted
  generalize moreChangeSeqs db input.workspaceId 1 = locked at *
  have grown : Change care locked
      (raiseHeightBounds
        { locked with
          nodes := locked.nodes.set input.nodeId
            (copiedNode input changeSeq) }
        parent.path 0) := by
    refine .grown input.nodeId _ parent.path fresh there
      (lockedSound.workspaceStorage there) ?_
      (by simp [copiedNode, newNodeRow]) rfl
      (length_path_parentFor reached within) ?_
    · intro parentId named
      obtain rfl := Option.some.inj named
      exact lockedSound.holdsPath reached folder inside
    · intro isRoot
      cases isRoot
  have trail : Trail care locked
      ((raiseHeightBounds
        { locked with
          nodes := locked.nodes.set input.nodeId
            (copiedNode input changeSeq) }
        parent.path 0).copied input.versionId (copiedVersion input objectId)
          object.ciphertextSize) := by
    refine (Trail.one grown).more (.copied _ _ objectId _ ?_
      (found_of_grown locked input.nodeId (copiedNode input changeSeq)
        parent.path) rfl rfl ?_)
    · rw [raiseHeightBounds_rest]
      exact freshVersion
    · rw [raiseHeightBounds_rest]
      exact congrArg (Option.map StoredObject.ciphertextSize) present
  have order := raise_copied locked input.nodeId
    (newNodeRow input.workspaceId (some input.parentId) .file input.keyEpoch
      input.parentKeyEpoch (some changeSeq))
    (fun node => { node with currentVersionId := some input.versionId })
    input.versionId (copiedVersion input objectId) object.ciphertextSize
    parent.path
  exact order ▸ trail

end Copying

section Swapping

variable {care : Care} {db : Database}

theorem readyVersion_eq_some
    {workspaceId versionId : Uuid}
    {row : Version} :
    readyVersion db workspaceId versionId = some row ↔
      db.versions.get? versionId = some row ∧
        row.workspaceId = workspaceId ∧ row.status = .ready := by
  simp [readyVersion, Option.filter_eq_some_iff]

theorem walkKept_eq_ok
    {nodeId : Uuid}
    {chain : Walk}
    (reached : walkKept db nodeId = .ok chain) :
    walk db nodeId = some chain ∧ chain.purged = false := by
  simp only [walkKept, bind_eq_ok, exists_unit, orRefuse_eq_ok,
    refuseIf_eq_ok, Except.ok.injEq, Bool.not_eq_true] at reached
  obtain ⟨_, found, kept, rfl⟩ := reached
  exact ⟨found, kept⟩

/-- Restoring a version is a trail of changes. -/
theorem trail_restoreVersion
    (sound : Sound db)
    (workspaceId versionId : Uuid)
    (writer : Option Uuid)
    (now : Nat) :
    Trail care db (restoreVersion db workspaceId versionId writer now).2 := by
  refine trail_underLock fun changeSeq answer after done => ?_
  have lockedSound := sound.more workspaceId 1
  simp only [bind_eq_ok, exists_unit, orRefuse_eq_ok, refuseIf_eq_ok,
    Except.ok.injEq, Prod.mk.injEq] at done
  obtain ⟨row, _, object, _, chain, reached, _, displaced, current, _, _, _,
    rfl⟩ := done
  obtain ⟨reached, kept⟩ := walkKept_eq_ok reached
  have walked := walked_of_walk reached
  have seen : chain.node.seen :=
    ⟨lockedSound.shown walked.found (.inr (.inr (by rw [current]; simp))),
      walked.kept kept⟩
  refine ((Trail.one (.superseded displaced _)).more
    (.superseded versionId _)).more
      (.shown row.nodeId chain.node versionId changeSeq [] walked.found
        (.inl rfl) fun _ => ⟨Nat.zero_le _, fun _ => .inl seen⟩)

theorem trail_purgeReadyVersion
    (sound : Sound db)
    {versionId : Uuid}
    {row : Version}
    (found : db.versions.get? versionId = some row)
    (taken : care.takes versionId) :
    Trail care db
      (purgeVersion db row.workspaceId (purgedVersion db versionId row)) :=
  trail_purgeVersion sound (standing_of_read found rfl) fun _ => taken

theorem trail_discardVersion
    (sound : Sound db)
    (workspaceId versionId : Uuid)
    (writer : Option Uuid)
    (now : Nat) :
    Trail (careOf db (.discardVersion workspaceId versionId writer now)) db
      (discardVersion db workspaceId versionId writer now).2 := by
  refine trail_underLock fun changeSeq answer after done => ?_
  simp only [bind_eq_ok, exists_unit, orRefuse_eq_ok, refuseIf_eq_ok,
    readyVersion_eq_some, Except.ok.injEq, Prod.mk.injEq] at done
  obtain ⟨row, ⟨found, inside, _⟩, _, _, _, _, rfl⟩ := done
  rw [← inside]
  exact trail_purgeReadyVersion (sound.more _ 1) found rfl

theorem trail_purgeSuperseded
    (sound : Sound db)
    (versionId now : Nat) :
    Trail (careOf db (.purgeSuperseded versionId now)) db
      (purgeSuperseded db versionId now).2 := by
  unfold purgeSuperseded
  cases chosenFound : db.versions.get? versionId with
  | none =>
    exact .done
  | some chosen =>
    refine trail_underLock fun changeSeq answer after done => ?_
    simp only [bind_eq_ok, exists_unit, orRefuse_eq_ok, refuseIf_eq_ok,
      Except.ok.injEq, Prod.mk.injEq] at done
    obtain ⟨row, found, _, _, rfl⟩ := done
    have same : row = chosen :=
      Option.some.inj (found.symm.trans chosenFound)
    rw [← same]
    exact trail_purgeReadyVersion (sound.more _ 1) found rfl

end Swapping

section Purging

variable {care : Care} {db : Database}

theorem trail_purgeNode
    (sound : Sound db)
    (workspaceId nodeId : Uuid)
    (writer : Option Uuid)
    (now : Nat) :
    Trail (careOf db (.purgeNode workspaceId nodeId writer now)) db
      (purgeNode db workspaceId nodeId writer now).2 := by
  refine trail_underLock fun changeSeq answer after done => ?_
  simp only [bind_eq_ok, exists_unit, Except.ok.injEq, Prod.mk.injEq] at done
  obtain ⟨_, purged, purge, _, rfl⟩ := done
  exact trail_purgeOne (sound.more workspaceId 1) purge
    (fun id row found onNode _ => ⟨row, found, onNode⟩) rfl

/-- Purging nodes one by one is a trail of changes. -/
theorem trail_purgeEach
    (sound : Sound db)
    {workspaceId now : Nat}
    {above : Uuid → List Uuid}
    {ids : List Uuid}
    {changeSeq : Nat}
    {after : Database}
    (done : purgeEach workspaceId now above ids changeSeq db = .ok after)
    (taken : ∀ nodeId ∈ ids, ∀ id row, db.versions.get? id = some row →
      row.nodeId = nodeId → row.status = .ready → care.takes id)
    (buried : ∀ nodeId ∈ ids, care.buries nodeId) :
    Trail care db after := by
  induction ids generalizing db changeSeq with
  | nil =>
    obtain rfl := Except.ok.inj done
    exact .done
  | cons nodeId rest inductionHypothesis =>
    obtain ⟨purged, purge, others⟩ := bind_eq_ok.mp done
    have first : Trail care db purged :=
      trail_purgeOne sound purge (taken nodeId (by simp))
        (buried nodeId (by simp))
    refine first.trans
      (inductionHypothesis (sound.trail first) others ?_ ?_)
    · intro other member id row found onNode ready
      exact taken other (by simp [member]) id row
        (version_of_purgeOne purge found (by rw [ready]; decide)) onNode
        ready
    · exact fun other member => buried other (by simp [member])

/-- Purging a batch is a trail of changes. -/
theorem trail_purgeNodes
    (sound : Sound db)
    (workspaceId : Uuid)
    (nodeIds : List Uuid)
    (writer inBudget now : Nat) :
    Trail (careOf db (.purgeNodes workspaceId nodeIds writer inBudget now)) db
      (purgeNodes db workspaceId nodeIds writer inBudget now).2 := by
  unfold purgeNodes
  split
  · exact .done
  · split
    · exact .done
    · refine trail_underLock fun firstSeq answer after done => ?_
      simp only [bind_eq_ok, Except.ok.injEq, Prod.mk.injEq] at done
      obtain ⟨purged, purge, _, rfl⟩ := done
      refine (trail_purgeEach (sound.more workspaceId 1) purge ?_ ?_).trans
        (trail_moreChangeSeqs _ _ _)
      · intro nodeId member id row found onNode _
        exact ⟨nodeId, mem_of_going (mem_of_mem_take member), row,
          found, onNode⟩
      · exact fun nodeId member =>
          mem_of_going (mem_of_mem_take member)

theorem trail_purgeDescendant
    (sound : Sound db)
    (nodeId now : Nat) :
    Trail (careOf db (.purgeDescendant nodeId now)) db
      (purgeDescendant db nodeId now).2 := by
  unfold purgeDescendant
  split
  · exact .done
  · next node found =>
      split
      · refine trail_underLock fun changeSeq answer after done => ?_
        simp only [bind_eq_ok, Except.ok.injEq, Prod.mk.injEq] at done
        obtain ⟨purged, purge, _, rfl⟩ := done
        exact trail_purgeOne (sound.more node.workspaceId 1) purge
          (fun id row found onNode _ => ⟨row, found, onNode⟩) rfl
      · exact .done

theorem trail_rememberDropped (db : Database) (dropped : List Node) :
    Trail care db (rememberDropped db dropped) := by
  unfold rememberDropped
  induction dropped generalizing db with
  | nil =>
    exact .done
  | cons row rest inductionHypothesis =>
    refine Trail.trans (.one (.workspace row.workspaceId _ ?_))
      (inductionHypothesis _)
    exact fun _ => rfl

theorem trail_deleteExpiredTombstones (cutoff : Nat) (picked : List Uuid) :
    Trail (careOf db (.deleteExpiredTombstones cutoff picked)) db
      (deleteExpiredTombstones db cutoff picked).2 := by
  refine (Trail.one (.deleted _ ?_ ?_ ?_)).trans (trail_rememberDropped _ _)
  · intro id row found due child childRow childFound named
    simp only [tombstoneDue, Bool.and_eq_true, Bool.not_eq_true'] at due
    have childless := exists_eq_false.mp due.2.2 child childRow
      childFound
    simp [named] at childless
  · intro spares id row found due
    simp only [Bool.and_eq_true, decide_eq_true_eq] at due
    exact spares.2 cutoff picked rfl id due.1 row found due.2
  · intro _ id row found due seen
    simp only [tombstoneDue, seen.2, Bool.and_eq_true] at due
    exact absurd due.2.1 (by simp)

end Purging

section Rotating

variable {care : Care} {db : Database}

/-- Starting a rotation is a trail of changes. -/
theorem trail_startRotation
    (workspaceId nodeId : Uuid)
    (startedBy : Option Uuid)
    (targetEpoch : Option Nat)
    (byRoster : Bool)
    (rotationId now : Nat) :
    Trail care db
      (startRotation db workspaceId nodeId startedBy targetEpoch byRoster
        rotationId now).2 := by
  refine trail_underRosterLock fun changeSeq answer after done => ?_
  simp only [bind_eq_ok, exists_unit, refuseIf_eq_ok, Except.ok.injEq,
    Prod.mk.injEq] at done
  obtain ⟨_, _, _, ⟨target, drawn⟩, targeted, _, _, rfl⟩ := done
  refine Trail.more ?_ (.beside _ _ _ _)
  obtain ⟨workspace, _, targeted⟩ := bind_eq_ok.mp targeted
  split at targeted
  · simp only [Except.ok.injEq, Prod.mk.injEq] at targeted
    obtain ⟨_, rfl⟩ := targeted
    exact .one (.workspace workspaceId _ fun _ => rfl)
  · simp only [bind_eq_ok, exists_unit, refuseIf_eq_ok, Except.ok.injEq,
      Prod.mk.injEq] at targeted
    obtain ⟨_, _, rfl⟩ := targeted
    exact .done

/-- A node rekeyed in place is one of the changes. -/
theorem change_rekeyed
    {id : Uuid}
    {node : Node}
    {change : Node → Node}
    (found : db.nodes.get? id = some node)
    (shown : node.changeSeq ≠ none)
    (same : ∀ row, (change row).workspaceId = row.workspaceId ∧
      (change row).parentId = row.parentId ∧
      (change row).kind = row.kind ∧
      (change row).heightBound = row.heightBound ∧
      (change row).currentVersionId = row.currentVersionId ∧
      (change row).purgedAt = row.purgedAt ∧
      (change row).changeSeq ≠ none) :
    Change care db (db.setNode id change) := by
  refine change_setNode fun row there => ?_
  rw [found] at there
  obtain rfl := Option.some.inj there
  obtain ⟨workspace, parent, kind, height, current, purged, still⟩ :=
    same node
  exact
    { workspaceId := workspace
      parentId := parent
      kind := kind
      heightBound := height
      currentVersionId := current
      shown := fun _ => still
      trashed := fun _ => still
      seen := fun _ seen => ⟨shown, purged ▸ seen.2⟩
      purged := .inl purged }

/-- Rotating a node is a trail of changes. -/
theorem trail_rotateNode
    (workspaceId rootId targetEpoch userId : Nat)
    (byRoster : Bool)
    (item : RotatedItem)
    (now : Nat) :
    Trail care db
      (rotateNode db workspaceId rootId targetEpoch userId byRoster item
        now).2 := by
  refine trail_underRosterLock fun changeSeq answer after done => ?_
  simp only [bind_eq_ok, exists_unit, refuseIf_eq_ok, orRefuse_eq_ok,
    Option.filter_eq_some_iff, Except.ok.injEq, Prod.mk.injEq,
    Decidable.not_not] at done
  obtain ⟨_, _, _, node, ⟨found, _⟩, current, _, rotated, row, _, rfl⟩ := done
  have shown : node.changeSeq ≠ none := by
    rw [current]
    simp
  unfold rotateRow at row
  split at row
  · cases row
  · cases row
  · simp only [bind_eq_ok, exists_unit, refuseIf_eq_ok, Except.ok.injEq]
      at row
    obtain ⟨_, rfl⟩ := row
    exact .one (change_rekeyed found shown fun _ =>
      ⟨rfl, rfl, rfl, rfl, rfl, rfl, by simp⟩)
  · simp only [bind_eq_ok, exists_unit, refuseIf_eq_ok] at row
    obtain ⟨_, row⟩ := row
    split at row
    · cases row
    · obtain rfl := Except.ok.inj row
      refine Trail.more (.one (change_rekeyed found shown fun _ => ?_))
        (.beside _ _ _ _)
      exact ⟨rfl, rfl, rfl, rfl, rfl, rfl, by simp [rekeyedRow]⟩

/-- Finishing a rotation is a trail of changes. -/
theorem trail_finishRotation (workspaceId rootId now : Nat) :
    Trail care db (finishRotation db workspaceId rootId now).2 := by
  refine trail_underLock fun changeSeq answer after done => ?_
  simp only [bind_eq_ok, exists_unit, refuseIf_eq_ok, Except.ok.injEq,
    Prod.mk.injEq] at done
  obtain ⟨entry, _, _, _, rfl⟩ := done
  generalize moreChangeSeqs db workspaceId 1 = locked
  have cleared : Change care locked
      { locked with
        nodes := locked.nodes.update
          (fun id _ => (subtree locked rootId).contains id)
          fun row => { row with prevKey := none } } := by
    refine .marked
      (fun id row =>
        if (subtree locked rootId).contains id then
          { row with prevKey := none }
        else row) fun id row _ => ?_
    split
    · exact ⟨rfl, rfl, rfl, rfl, rfl, fun seen => seen,
        fun differs => absurd rfl differs, fun _ seen => seen, .inl rfl⟩
    · exact ⟨rfl, rfl, rfl, rfl, rfl, fun seen => seen,
        fun differs => absurd rfl differs, fun _ seen => seen, .inl rfl⟩
  exact (Trail.one cleared).more (.beside _ _ _ _)

end Rotating

/-- Every write to the drive is a trail of changes. -/
theorem step_trail
    {db : Database}
    (sound : Sound db)
    (op : Op) :
    Trail (careOf db op) db (step db op) := by
  cases op with
  | openWorkspace id groupId baseQuotaBytes =>
    exact trail_openWorkspace id groupId baseQuotaBytes
  | retireArea id now => exact trail_retireArea id now
  | setKeyVersion id version => exact .one (.workspace id _ fun _ => rfl)
  | settleAccounts accounts => exact .one (.beside _ _ _ accounts)
  | grantShare id share => exact trail_grantShare id share
  | revokeShare id now => exact .one (.beside _ _ _ _)
  | recordObjectAudit id missing => exact trail_recordObjectAudit id missing
  | markObjectReplicated id now => exact trail_markObjectReplicated id now
  | createRoot workspaceId userId id keyEpoch parentKeyEpoch signed now =>
    exact trail_createRoot sound workspaceId userId id keyEpoch
      parentKeyEpoch signed now
  | createFolders workspaceId userId folders signed now =>
    exact trail_createFolders sound workspaceId userId folders signed now
  | allocateKeyEpochs workspaceId count writer now =>
    exact trail_allocateKeyEpochs workspaceId count writer now
  | renameNode workspaceId nodeId userId metadataVersion keyEpoch signed now =>
    exact trail_renameNode workspaceId nodeId userId metadataVersion
      keyEpoch signed now fun shallow => shallow
  | moveNode workspaceId writer nodeId parentId parentKeyEpoch now =>
    exact trail_moveNode sound workspaceId writer nodeId parentId
      parentKeyEpoch now
  | trashNode workspaceId nodeId writer now =>
    exact trail_trashNode workspaceId nodeId writer now
      fun shallow => shallow
  | trashNodes workspaceId nodeIds writer now =>
    exact trail_trashNodes workspaceId nodeIds writer now
      fun shallow => shallow
  | removeNode workspaceId nodeId now =>
    exact trail_removeNode workspaceId nodeId now fun shallow => shallow
  | restoreNode workspaceId writer nodeId toRoot now =>
    exact trail_restoreNode sound workspaceId writer nodeId toRoot now
  | restoreNodes workspaceId nodeIds writer now =>
    exact trail_restoreNodes sound workspaceId nodeIds writer now
  | beginUpload input => exact trail_beginUpload sound input
  | startCompleting workspaceId uploadId writer now =>
    exact trail_startCompleting workspaceId uploadId writer now
  | finishCompleting workspaceId uploadId storedSize move writer now =>
    exact trail_finishCompleting sound workspaceId uploadId storedSize move
      writer now
  | attachUpload workspaceId uploadId input move writer now =>
    exact trail_attachUpload sound workspaceId uploadId input move writer
      now
  | abortUpload workspaceId uploadId force now =>
    exact trail_abortUpload sound workspaceId uploadId force now
  | copyFile input => exact trail_copyFile sound input
  | restoreVersion workspaceId versionId writer now =>
    exact trail_restoreVersion sound workspaceId versionId writer now
  | discardVersion workspaceId versionId writer now =>
    exact trail_discardVersion sound workspaceId versionId writer now
  | purgeSuperseded versionId now =>
    exact trail_purgeSuperseded sound versionId now
  | purgeNode workspaceId nodeId writer now =>
    exact trail_purgeNode sound workspaceId nodeId writer now
  | purgeNodes workspaceId nodeIds writer inBudget now =>
    exact trail_purgeNodes sound workspaceId nodeIds writer inBudget now
  | purgeDescendant nodeId now =>
    exact trail_purgeDescendant sound nodeId now
  | deleteExpiredTombstones cutoff picked =>
    exact trail_deleteExpiredTombstones cutoff picked
  | startRotation workspaceId nodeId startedBy targetEpoch byRoster
      rotationId now =>
      exact trail_startRotation workspaceId nodeId startedBy targetEpoch
        byRoster rotationId now
  | rotateNode workspaceId rootId targetEpoch userId byRoster item now =>
    exact trail_rotateNode workspaceId rootId targetEpoch userId byRoster
      item now
  | finishRotation workspaceId rootId now =>
    exact trail_finishRotation workspaceId rootId now

theorem sound_run
    {db : Database}
    (sound : Sound db)
    (ops : List Op) :
    Sound (run db ops) :=
  keeps_of_step Sound (fun _ op sound => sound.trail (step_trail sound op))
    ops sound

end Drive

end HushOS
