import HushOS.Drive.TreeSteps

namespace HushOS

open Toolkit List OrderedMap

namespace Drive

/-!
# Writes of uploads as trails

Begin, complete, attach and abort: each checked branch is the trail of what
it writes.
-/

section Beginning

variable {care : Care} {db : Database}

variable {keyEpoch : Nat}

/-- A parent found is a shown folder with room and the asked key. -/
theorem parentFor_eq_ok
    {workspaceId parentId parentKeyEpoch : Nat}
    {parent : Walk}
    (found : parentFor db workspaceId parentId keyEpoch parentKeyEpoch =
      .ok parent) :
    walk db parentId = some parent ∧ parent.node.workspaceId = workspaceId ∧
      parent.purged = false ∧ parent.node.kind = .folder ∧
      parent.trashed = false ∧ parent.depth + 1 ≤ MAX_DEPTH ∧
      underUnrotatedParent db workspaceId parent = false ∧
      parent.node.keyEpoch = parentKeyEpoch ∧
      epochWasAllocated db workspaceId keyEpoch = true := by
  simp only [parentFor, bind_eq_ok, exists_unit, refuseIf_eq_ok,
    walkTo_eq_ok, Except.ok.injEq, Bool.not_eq_true, Decidable.not_not,
    Bool.not_eq_true', Bool.not_eq_false, not_lt] at found
  obtain ⟨_, ⟨reached, inside, kept, folder⟩, untrashed, settled, within,
    sameEpoch, allocated, rfl⟩ := found
  exact ⟨reached, inside, kept, folder, untrashed, within, settled,
    sameEpoch.symm, allocated⟩

theorem length_path_parentFor
    {parentId : Uuid}
    {parent : Walk}
    (reached : walk db parentId = some parent)
    (within : parent.depth + 1 ≤ MAX_DEPTH) :
    parent.path.length ≤ MAX_DEPTH := by
  rw [length_path, ← (walked_of_walk reached).depth]
  exact within

theorem reserveFor_nonneg
    (size : Nat)
    (move : Option MoveRecord)
    (pooled : Bool) :
    0 ≤ reserveFor size move pooled := by
  unfold reserveFor
  split
  · split
    · split
      · omega
      · exact le_refl 0
    · omega
  · omega

/-- The object's row as a begin inserts it. -/
def begunObject (input : UploadBegin) : Uuid × StoredObject :=
  (input.object.id,
    { workspaceId := input.workspaceId
      objectKey := input.object.objectKey
      contentSuite := input.object.contentSuite
      chunkSize := input.object.chunkSize
      chunkCount := input.object.chunkCount
      ciphertextSize := input.object.ciphertextSize
      status := .pending
      replicatedAt := none })

/-- The version's row as a begin inserts it. -/
def begunVersion (input : UploadBegin) : Uuid × Version :=
  (input.versionId,
    { nodeId := input.node.id
      workspaceId := input.workspaceId
      objectId := some input.object.id
      status := .pending
      supersededAt := none })

/-- The upload's row as a begin inserts it. -/
def begunUpload
    (input : UploadBegin)
    (keyEpoch : Nat)
    (expectedVersionId : Option Uuid)
    (move : Option MoveRecord)
    (reserve : Int) : Uuid × Upload :=
  (input.uploadId,
    { workspaceId := input.workspaceId
      nodeId := input.node.id
      versionId := input.versionId
      objectId := some input.object.id
      objectKey := input.object.objectKey
      keyEpoch := keyEpoch
      expectedVersionId := expectedVersionId
      newNode := input.node.isNew
      reservedBytes := reserve
      expiresAt := input.expiresAt
      status := .open_
      completingAt := none
      move := move })

/-- The rows a begin inserts, and that their ids and keys were free. -/
structure Inserts
    (db : Database)
    (input : UploadBegin)
    (keyEpoch : Nat)
    (expectedVersionId : Option Uuid)
    (move : Option MoveRecord)
    (reserve : Int)
    (withNode after : Database) : Prop where
  pending : insertPending db input.workspaceId input.node = .ok withNode
  freshObject : db.objects.get? input.object.id = none
  freshKey : ∀ id row, db.objects.get? id = some row →
    row.objectKey ≠ input.object.objectKey
  freshVersion : db.versions.get? input.versionId = none
  freshUpload : db.uploads.get? input.uploadId = none
  equal : after = withNode.begun (begunObject input) (begunVersion input)
    (begunUpload input keyEpoch expectedVersionId move reserve)

theorem insertPending_rest
    {workspaceId : Uuid}
    {node : UploadNode}
    {after : Database}
    (done : insertPending db workspaceId node = .ok after) :
    after = { db with nodes := after.nodes } ∧
      ∀ (used reserved : Int) (id : Uuid),
        insertPending (db.adjustStorage id used reserved) workspaceId node =
          .ok (after.adjustStorage id used reserved) := by
  cases node with
  | existing id epoch expected =>
    obtain rfl := Except.ok.inj done
    exact ⟨rfl, fun _ _ _ => rfl⟩
  | fresh id parentId epoch parentEpoch =>
    obtain ⟨fresh, rfl⟩ := insertNode_eq_ok.mp done
    exact ⟨rfl, fun _ _ _ => insertNode_eq_ok.mpr ⟨fresh, rfl⟩⟩

variable {input : UploadBegin} {move : Option MoveRecord} {reserve : Int}

variable {expectedVersionId : Option Uuid}

/-- What beginning an upload inserts. -/
theorem insertBegun_eq_ok
    {after : Database}
    (done : insertBegun db input keyEpoch expectedVersionId move reserve =
      .ok after) :
    ∃ withNode, Inserts db input keyEpoch expectedVersionId move reserve
      withNode after := by
  obtain ⟨paidNode, paid, rest⟩ := bind_eq_ok.mp done
  obtain ⟨withNode, pending, equal⟩ : ∃ withNode,
      insertPending db input.workspaceId input.node = .ok withNode ∧
        paidNode = withNode.adjustStorage input.workspaceId 0 reserve := by
    cases named : input.node with
    | existing id epoch expected =>
      rw [named] at paid
      exact ⟨db, rfl, (Except.ok.inj paid).symm⟩
    | fresh id parentId epoch parentEpoch =>
      rw [named] at paid
      obtain ⟨fresh, equal⟩ := insertNode_eq_ok.mp paid
      exact ⟨_, insertNode_eq_ok.mpr ⟨fresh, rfl⟩, equal⟩
  subst equal
  obtain ⟨same, _⟩ := insertPending_rest pending
  simp only [insertObject, insertVersion, insertUpload, bind_eq_ok,
    exists_unit, refuseIf_eq_ok, Except.ok.injEq, Bool.or_eq_true, not_or,
    Bool.not_eq_true] at rest
  obtain ⟨_, ⟨_, ⟨freshObject, freshKey⟩, rfl⟩, _, ⟨_, freshVersion, rfl⟩,
    ⟨freshUpload, _⟩, rfl⟩ := rest
  refine ⟨withNode,
    { pending := pending
      freshObject := ?_
      freshKey := ?_
      freshVersion := ?_
      freshUpload := ?_
      equal := rfl }⟩
  · rw [same] at freshObject
    exact has_eq_false.mp freshObject
  · intro id row found
    rw [same] at freshKey
    simpa using exists_eq_false.mp freshKey id row found
  · rw [same] at freshVersion
    exact has_eq_false.mp freshVersion
  · rw [same] at freshUpload
    exact has_eq_false.mp freshUpload

theorem change_begun
    {withNode after : Database}
    (inserts : Inserts db input keyEpoch expectedVersionId move reserve
      withNode after)
    (node : Node)
    (found : withNode.nodes.get? input.node.id = some node)
    (inside : node.workspaceId = input.workspaceId)
    (file : node.kind = .file)
    (nonneg : 0 ≤ reserve)
    (stored : care.stores input.object.id input.object.objectKey) :
    Change care withNode after := by
  obtain ⟨same, _⟩ := insertPending_rest inserts.pending
  rw [inserts.equal]
  refine .begun _ _ _ ?_ ?_ ?_ ⟨node, found, inside, file⟩ rfl rfl rfl rfl rfl
    rfl rfl nonneg stored
  · rw [same]
    exact inserts.freshObject
  · rw [same]
    exact inserts.freshVersion
  · rw [same]
    exact inserts.freshUpload

/-- Inserting an upload is a trail of changes. -/
theorem trail_inserts
    (sound : Sound db)
    {at_ : Nat}
    {expected : Option Uuid}
    {withNode after : Database}
    (placed : uploadNodeAt db input.workspaceId input.node =
      .ok (at_, expected))
    (inserts : Inserts db input keyEpoch expectedVersionId move reserve
      withNode after)
    (nonneg : 0 ≤ reserve)
    (stored : care.stores input.object.id input.object.objectKey) :
    Trail care db after := by
  have pending := inserts.pending
  cases named : input.node with
  | existing id epoch expectedId =>
    rw [named] at placed pending
    obtain rfl := Except.ok.inj pending
    simp only [uploadNodeAt, bind_eq_ok, exists_unit, refuseIf_eq_ok,
      walkTo_eq_ok] at placed
    obtain ⟨chain, ⟨reached, inside, _, file⟩, _⟩ := placed
    have itsId : input.node.id = id := by rw [named]; rfl
    refine .one (change_begun inserts chain.node ?_ inside file nonneg
      stored)
    rw [itsId]
    exact (walked_of_walk reached).found
  | fresh id parentId epoch parentEpoch =>
    rw [named] at placed pending
    obtain ⟨fresh, equal⟩ := insertNode_eq_ok.mp pending
    simp only [uploadNodeAt, bind_eq_ok] at placed
    obtain ⟨parent, forParent, _⟩ := placed
    obtain ⟨reached, inside, _, folder, _, _, _, _, allocated⟩ :=
      parentFor_eq_ok forParent
    have there := has_of_epoch allocated
    have held := sound.holdsPath reached folder inside
    have sprouted : Change care db withNode := by
      rw [equal]
      exact .sprouted id _ parentId parent.path fresh there
        (sound.workspaceStorage there) rfl held rfl rfl rfl rfl rfl
    have itsId : input.node.id = id := by rw [named]; rfl
    refine (Trail.one sprouted).more (change_begun inserts
      (newNodeRow input.workspaceId (some parentId) .file epoch parentEpoch
        none) ?_ rfl rfl nonneg stored)
    rw [itsId, equal]
    exact get?_set_self _ _ _

theorem trail_beginUpload (sound : Sound db) (input : UploadBegin) :
    Trail (careOf db (.beginUpload input)) db (beginUpload db input).2 := by
  refine trail_keepingUnderLock fun changeSeq answer after done => ?_
  simp only [beginUploadBody, bind_eq_ok, exists_unit, refuseIf_eq_ok,
    Except.ok.injEq, Prod.mk.injEq] at done
  obtain ⟨_, placed, _, move, _, storage, _, _, begun, done, _, rfl⟩ := done
  obtain ⟨withNode, inserts⟩ := insertBegun_eq_ok done
  exact trail_inserts (sound.more input.workspaceId 1) placed inserts
    (reserveFor_nonneg _ _ _) ⟨rfl, rfl⟩

end Beginning

section Completing

variable {care : Care} {db : Database}

theorem getUpload_eq_some
    {workspaceId uploadId : Uuid}
    {row : Upload} :
    getUpload db workspaceId uploadId = some row ↔
      db.uploads.get? uploadId = some row ∧ row.workspaceId = workspaceId := by
  simp [getUpload, Option.filter_eq_some_iff]

/-- Starting to complete an upload is a trail of changes. -/
theorem trail_startCompleting
    (workspaceId uploadId : Uuid)
    (writer : Option Uuid)
    (now : Nat) :
    Trail care db
      (startCompleting db workspaceId uploadId writer now).2 := by
  unfold startCompleting
  dsimp only
  split
  · exact .done
  · next result written =>
      simp only [bind_eq_ok, exists_unit, orRefuse_eq_ok, getUpload_eq_some]
        at written
      obtain ⟨_, row, ⟨found, _⟩, written⟩ := written
      split at written
      · cases written
      · cases written
      · cases written
      · obtain rfl := Except.ok.inj written
        exact .done
      · next opened =>
          simp only [bind_eq_ok, exists_unit, refuseIf_eq_ok] at written
          obtain ⟨_, equal⟩ := written
          obtain rfl := Except.ok.inj equal
          refine trail_setUpload uploadId _ fun other there => ?_
          rw [found] at there
          obtain rfl := Option.some.inj there
          exact ⟨rfl, rfl, rfl, rfl, rfl, by rw [opened]; rfl⟩

variable {move : Option MoveRecord} {sourceSeq : Option Nat} {workspaceId : Uuid}
  {row : Upload}

variable {now : Nat}

/-- The completion lock moves the workspaces' numbers alone. -/
theorem lockForCompletion_eq_ok
    {writer : Option Uuid}
    {changeSeq : Nat}
    {locked : Database}
    (taken : lockForCompletion db workspaceId writer move now =
      .ok (changeSeq, sourceSeq, locked)) :
    Trail care db locked ∧
      locked = { db with workspaces := locked.workspaces } := by
  obtain ⟨⟨first, once⟩, lock, rest⟩ := bind_eq_ok.mp taken
  obtain ⟨rfl, _⟩ := nextChangeSeq_eq_ok lock
  have trail : Trail care db (moreChangeSeqs db workspaceId 1) :=
    trail_moreChangeSeqs db workspaceId 1
  cases move with
  | none =>
    simp only [Except.ok.injEq, Prod.mk.injEq] at rest
    obtain ⟨_, _, rfl⟩ := rest
    exact ⟨trail, rfl⟩
  | some move =>
    simp only at rest
    split at rest
    · obtain ⟨⟨again, twice⟩, lock, equal⟩ := bind_eq_ok.mp rest
      obtain ⟨rfl, _⟩ := nextChangeSeq_eq_ok lock
      simp only [Except.ok.injEq, Prod.mk.injEq] at equal
      obtain ⟨_, _, rfl⟩ := equal
      exact ⟨trail.trans (trail_moreChangeSeqs _ _ _), rfl⟩
    · split at rest
      · simp only [Except.ok.injEq, Prod.mk.injEq] at rest
        obtain ⟨_, _, rfl⟩ := rest
        exact ⟨trail, rfl⟩
      · simp only [Except.ok.injEq, Prod.mk.injEq] at rest
        obtain ⟨_, _, rfl⟩ := rest
        exact ⟨trail.trans (trail_moreChangeSeqs _ _ _), rfl⟩

/-- A body that is a trail is one under its lock. -/
theorem trail_underCompletionLock
    {writer : Option Uuid}
    {body : Nat → Option Nat → Database → Body}
    (trails : ∀ changeSeq sourceSeq locked answer after,
      lockForCompletion db workspaceId writer move now =
        .ok (changeSeq, sourceSeq, locked) →
      body changeSeq sourceSeq locked = .ok (answer, after) →
        Trail care locked after) :
    Trail care db
      (underCompletionLock db workspaceId writer move now body).2 := by
  unfold underCompletionLock
  split
  · exact .done
  · next changeSeq sourceSeq locked taken =>
      have first : Trail care db locked := (lockForCompletion_eq_ok taken).1
      split
      · split
        · exact .done
        · exact first
      · next result written =>
          exact first.trans
            (trails changeSeq sourceSeq locked result.1 result.2 taken
              written)

/-- A move that still holds has a source beside the upload's node. -/
theorem source_of_moveStillHolds
    {move : MoveRecord}
    {uploadId : Nat}
    (holds : moveStillHolds db row move sourceSeq now = true)
    (found : db.uploads.get? uploadId = some row)
    (live : row.status.live = true) :
    move.nodeId ≠ row.nodeId ∧
      ∃ node, db.nodes.get? move.nodeId = some node := by
  simp only [moveStillHolds, Bool.and_eq_true] at holds
  obtain ⟨_, recorded⟩ := holds
  unfold sourceAsRecorded at recorded
  cases reached : walk db move.nodeId with
  | none =>
    rw [reached] at recorded
    cases recorded
  | some chain =>
    rw [reached] at recorded
    simp only [Bool.and_eq_true, Bool.not_eq_true'] at recorded
    obtain ⟨⟨_, idle⟩, _⟩ := recorded
    refine ⟨fun same => ?_, chain.node, (walked_of_walk reached).found⟩
    have busy := exists_eq_false.mp idle uploadId row found
    simp [same, live] at busy

/-- What publishing with its move takes. -/
structure Settles
    (care : Care)
    (db : Database)
    (row : Upload)
    (move : Option MoveRecord) : Prop where
  apart : ∀ source, move = some source → source.nodeId ≠ row.nodeId
  taken : ∀ source, move = some source → ∀ id version,
    db.versions.get? id = some version →
      version.nodeId = source.nodeId → version.status = .ready →
        care.takes id
  buried : ∀ source, move = some source → care.buries source.nodeId

/-- Publishing and settling a move is a trail of changes. -/
theorem trail_publishAndSettle
    (sound : Sound db)
    {uploadId : Uuid}
    {size : Nat}
    {ancestors : List Ancestor}
    {displaced : Option Uuid}
    {node : Node}
    {changeSeq : Nat}
    {answer : Answer}
    {after : Database}
    (found : db.uploads.get? uploadId = some row)
    (live : row.status.live = true)
    (sized : db.sizeOf row.objectId = some size)
    (publishes : Publishes care db row ancestors displaced node)
    (settles : Settles care db row move)
    (done : publishAndSettle db uploadId row size ancestors displaced
      changeSeq move sourceSeq now = .ok (answer, after)) :
    Trail care db after := by
  have published := trail_publishUpload sound changeSeq now found live sized
    publishes
  cases move with
  | none =>
    simp only [publishAndSettle, Except.ok.injEq, Prod.mk.injEq] at done
    obtain ⟨_, rfl⟩ := done
    exact published
  | some source =>
    simp only [publishAndSettle, settleMove, bind_eq_ok, Except.ok.injEq,
      Prod.mk.injEq] at done
    obtain ⟨settled, ⟨purged, purge, rfl⟩, _, rfl⟩ := done
    have purges : Trail care _ purged :=
      trail_purgeOne (sound.trail published) purge ?_
        (settles.buried source rfl)
    · refine (published.trans purges).trans
        (trail_setUpload _ _ fun _ _ => ?_)
      exact ⟨rfl, rfl, rfl, rfl, rfl, rfl⟩
    · intro id version there onSource ready
      obtain ⟨before, earlier, sameNode, sameStatus⟩ :=
        version_of_publish sized there (by rw [ready]; decide)
      have other : id ≠ row.versionId := by
        rintro rfl
        obtain ⟨own, ownFound, _, ownNode, _⟩ :=
          sound.uploadVersion found live
        rw [earlier] at ownFound
        obtain rfl := Option.some.inj ownFound
        exact settles.apart source rfl
          (onSource.symm.trans (sameNode.symm.trans ownNode))
      exact settles.taken source rfl id before earlier
        (sameNode.trans onSource) ((sameStatus other).trans ready)

/-- An upload ends published only unmoved and at its stored size. -/
theorem endingOf_publish
    {storedSize : Option Nat}
    {size : Nat}
    {chain : Walk}
    {displaced : Option Uuid}
    (ends : endingOf db workspaceId row storedSize move sourceSeq now =
      .publish chain size displaced) :
    db.sizeOf row.objectId = some size ∧ storedSize = some size ∧
      walk db row.nodeId = some chain ∧ chain.purged = false ∧
      holdsIfMove db row move sourceSeq now = true ∧
      preconditionMoved row chain = false ∧
      displaced = chain.node.currentVersionId := by
  unfold endingOf at ends
  split at ends
  · cases ends
  · split at ends
    · next stored declared sized =>
        split at ends
        · cases ends
        · next same =>
            split at ends
            · cases ends
            · next found reached =>
                split at ends
                · cases ends
                · next kept =>
                    split at ends
                    · cases ends
                    · next holds =>
                        split at ends
                        · cases ends
                        · next still =>
                            simp only [Ending.publish.injEq] at ends
                            obtain ⟨rfl, rfl, rfl⟩ := ends
                            rw [Decidable.not_not] at same
                            exact ⟨sized, by rw [same], reached,
                              by simpa using kept, by simpa using holds,
                              by simpa using still, rfl⟩
    · cases ends

theorem apart_of_holdsIfMove
    {uploadId : Nat}
    (holds : holdsIfMove db row move sourceSeq now = true)
    (found : db.uploads.get? uploadId = some row)
    (live : row.status.live = true) :
    ∀ source, move = some source →
      source.nodeId ≠ row.nodeId ∧
        ∃ node, db.nodes.get? source.nodeId = some node := by
  rintro source rfl
  exact source_of_moveStillHolds holds found live

/-- A walked node is a root or hangs on a lineage. -/
theorem place_of_walk
    {id : Uuid}
    {chain : Walk}
    (reached : walk db id = some chain) :
    (chain.ancestors = [] ∧ chain.node.parentId = none) ∨
      ∃ parentId above, chain.node.parentId = some parentId ∧
        nearestFirst chain.ancestors = parentId :: above ∧
          Lineage db.nodes parentId above := by
  have walked := walked_of_walk reached
  have lineage := walked.lineage
  cases nearest : nearestFirst chain.ancestors with
  | nil =>
    rw [nearest] at lineage
    obtain ⟨row, found, isRoot⟩ := lineage
    rw [walked.found] at found
    obtain rfl := Option.some.inj found
    exact .inl ⟨by simpa [nearestFirst] using nearest, isRoot⟩
  | cons parent above =>
    rw [nearest] at lineage
    obtain ⟨row, found, named, upper⟩ := lineage
    rw [walked.found] at found
    obtain rfl := Option.some.inj found
    exact .inr ⟨parent, above, named, rfl, upper⟩

/-- Finishing an upload is a trail of changes. -/
theorem trail_finishCompleting
    (sound : Sound db)
    (workspaceId uploadId : Uuid)
    (storedSize : Option Nat)
    (move : Option MoveRecord)
    (writer : Option Uuid)
    (now : Nat) :
    Trail
      (careOf db (.finishCompleting workspaceId uploadId storedSize move
        writer now))
      db
      (finishCompleting db workspaceId uploadId storedSize move writer
        now).2 := by
  refine trail_underCompletionLock
    fun changeSeq sourceSeq locked answer after taken done => ?_
  obtain ⟨first, rest⟩ : Trail
      (careOf db (.finishCompleting workspaceId uploadId storedSize move
        writer now)) db locked ∧
      locked = { db with workspaces := locked.workspaces } :=
    lockForCompletion_eq_ok taken
  have lockedSound := sound.trail first
  obtain ⟨row, there, done⟩ := bind_eq_ok.mp done
  rw [orRefuse_eq_ok] at there
  obtain ⟨found, _⟩ := getUpload_eq_some.mp there
  have completing : (row.status = .completing ∨ row.status = .conflicted) ∧
      complete locked uploadId row move changeSeq sourceSeq now
        (endingOf locked workspaceId row storedSize move sourceSeq now) =
          .ok (answer, after) := by
    split at done
    · cases done
    · cases done
    · cases done
    · next status => exact ⟨.inl status, done⟩
    · next status => exact ⟨.inr status, done⟩
  obtain ⟨status, done⟩ := completing
  have live : row.status.live = true := by
    rcases status with status | status <;> rw [status] <;> rfl
  have versions : locked.versions = db.versions := by rw [rest]
  have nodes : locked.nodes = db.nodes := by rw [rest]
  cases ending : endingOf locked workspaceId row storedSize move sourceSeq
      now with
  | release answer =>
    rw [ending] at done
    simp only [complete, Except.ok.injEq, Prod.mk.injEq] at done
    obtain ⟨_, rfl⟩ := done
    have completes : Completes db workspaceId uploadId storedSize move
        writer now row (.release answer) :=
      ⟨changeSeq, sourceSeq, locked, taken, there, status, ending⟩
    refine trail_releaseUpload lockedSound found live rfl ?_ ?_
    · intro spares isNew id version present
      rw [versions] at present
      exact spares.1 row ⟨isNew, answer, completes⟩ id version present
    · intro hides isNew node present
      rw [nodes] at present
      exact hides row ⟨isNew, answer, completes⟩ node present
  | conflict current =>
    rw [ending] at done
    simp only [complete, Except.ok.injEq, Prod.mk.injEq] at done
    obtain ⟨_, rfl⟩ := done
    refine trail_setUpload _ _ fun other present => ?_
    rw [found] at present
    obtain rfl := Option.some.inj present
    exact ⟨rfl, rfl, rfl, rfl, rfl, live.symm⟩
  | publish chain size displaced =>
    rw [ending] at done
    have completes : Completes db workspaceId uploadId storedSize move
        writer now row (.publish chain size displaced) :=
      ⟨changeSeq, sourceSeq, locked, taken, there, status, ending⟩
    obtain ⟨sized, _, reached, kept, holds, _, current⟩ :=
      endingOf_publish ending
    have walked := walked_of_walk reached
    have apart := apart_of_holdsIfMove holds found live
    have publishes : Publishes
        (careOf db (.finishCompleting workspaceId uploadId storedSize move
          writer now)) locked row chain.ancestors displaced chain.node := by
      refine
        { found := walked.found
          place := fun _ => place_of_walk reached
          within := fun shallow isNew => ?_
          seen := fun shallow notNew => ?_
          taken := ?_ }
      · have within := shallow row chain size displaced completes
        rw [if_pos isNew, walked.depth] at within
        exact within
      · have shown := shallow row chain size displaced completes
        rw [notNew] at shown
        exact ⟨shown chain.node (nodes ▸ walked.found), walked.kept kept⟩
      · intro old isOld id version present onNode ready notOld
        refine ⟨row, chain, size, displaced, completes, .inl
          ⟨⟨version, versions ▸ present, onNode⟩, ?_⟩⟩
        intro node nodeFound isCurrent
        rw [← nodes, walked.found] at nodeFound
        obtain rfl := Option.some.inj nodeFound
        rw [current, isCurrent] at isOld
        exact notOld (Option.some.inj isOld)
    refine trail_publishAndSettle lockedSound found live sized publishes
      ?_ done
    exact
      { apart := fun source isMove => (apart source isMove).1
        taken := fun source isMove id version present onSource _ =>
          ⟨row, chain, size, displaced, completes, .inr
            ⟨source, isMove, version, versions ▸ present, onSource⟩⟩
        buried := fun source isMove =>
          ⟨row, chain, size, displaced, source, completes, isMove, rfl⟩ }

/-- Aborting an upload is a trail of changes. -/
theorem trail_abortUpload
    (sound : Sound db)
    (workspaceId uploadId : Uuid)
    (force : Bool)
    (now : Nat) :
    Trail (careOf db (.abortUpload workspaceId uploadId force now)) db
      (abortUpload db workspaceId uploadId force now).2 := by
  refine trail_underLock fun changeSeq answer after done => ?_
  obtain ⟨row, there, done⟩ := bind_eq_ok.mp done
  rw [orRefuse_eq_ok] at there
  obtain ⟨found, _⟩ := getUpload_eq_some.mp there
  have release : Aborts db workspaceId uploadId force row →
      row.status.live = true →
      Trail (careOf db (.abortUpload workspaceId uploadId force now))
        (moreChangeSeqs db workspaceId 1)
        (releaseUpload (moreChangeSeqs db workspaceId 1) uploadId row
          .aborted) := by
    intro aborts live
    refine trail_releaseUpload (sound.more workspaceId 1) found live rfl ?_ ?_
    · exact fun spares isNew => spares.1 row ⟨isNew, aborts⟩
    · exact fun hides isNew => hides row ⟨isNew, aborts⟩
  split at done
  · cases done
  · cases done
  · next status =>
      simp only [bind_eq_ok, exists_unit, refuseIf_eq_ok, Except.ok.injEq,
        Prod.mk.injEq] at done
      obtain ⟨forced, _, rfl⟩ := done
      exact release ⟨there, .inr (.inr ⟨status, by simpa using forced⟩)⟩
        (by rw [status]; rfl)
  · next status =>
      simp only [Except.ok.injEq, Prod.mk.injEq] at done
      obtain ⟨_, rfl⟩ := done
      exact release ⟨there, .inl status⟩ (by rw [status]; rfl)
  · next status =>
      simp only [Except.ok.injEq, Prod.mk.injEq] at done
      obtain ⟨_, rfl⟩ := done
      exact release ⟨there, .inr (.inl status)⟩ (by rw [status]; rfl)

end Completing

section Attaching

variable {care : Care} {db : Database}

variable {row : Upload} {after : Database} {uploadId : Uuid}

variable {keyEpoch : Nat}

/-- Attaching to the same node asks for its current key. -/
theorem sameNodeAttaching_publish
    {workspaceId : Uuid}
    {attaching : Attaching}
    (attaches : sameNodeAttaching db workspaceId row keyEpoch =
      .ok attaching) :
    (∃ answer, attaching = .release answer) ∨
      ∃ chain, attaching = .publish chain ∧
        walk db row.nodeId = some chain ∧ chain.purged = false ∧
        chain.node.keyEpoch = keyEpoch ∧ row.newNode = false ∧
        underUnrotatedParent db workspaceId chain = false := by
  unfold sameNodeAttaching at attaches
  cases reached : walk db row.nodeId with
  | none =>
    rw [reached] at attaches
    exact .inl ⟨_, (Except.ok.inj attaches).symm⟩
  | some chain =>
    rw [reached] at attaches
    simp only at attaches
    split at attaches
    · exact .inl ⟨_, (Except.ok.inj attaches).symm⟩
    · next kept =>
        simp only [bind_eq_ok, exists_unit, refuseIf_eq_ok,
          Except.ok.injEq] at attaches
        obtain ⟨settled, sameEpoch, unmoved, equal⟩ := attaches
        rw [Decidable.not_not] at sameEpoch
        simp only [Bool.not_eq_true, Bool.or_eq_false_iff] at unmoved
        exact .inr ⟨chain, equal.symm, rfl, by simpa using kept,
          sameEpoch, unmoved.1, by simpa using settled⟩

/-- An attach releases, publishes in place or makes a sibling. -/
theorem attachingOf_cases
    {workspaceId : Uuid}
    {input : AttachInput}
    {move : Option MoveRecord}
    {sourceSeq : Option Nat}
    {now : Nat}
    {attaching : Attaching}
    (attaches : attachingOf db workspaceId row input move sourceSeq now =
      .ok attaching) :
    (∃ answer, attaching = .release answer) ∨
      (holdsIfMove db row move sourceSeq now = true ∧
        ((∃ chain, attaching = .publish chain ∧
            walk db row.nodeId = some chain ∧ chain.purged = false ∧
            chain.node.keyEpoch = input.mode.keyEpoch ∧
            row.newNode = false ∧
            underUnrotatedParent db workspaceId chain = false) ∨
          ∃ parent id parentId keyEpoch parentKeyEpoch,
            input.mode = .sibling id parentId keyEpoch parentKeyEpoch ∧
            attaching = .sibling parent id keyEpoch parentKeyEpoch ∧
            parentFor db workspaceId parentId keyEpoch parentKeyEpoch =
              .ok parent)) := by
  unfold attachingOf at attaches
  split at attaches
  · exact .inl ⟨_, (Except.ok.inj attaches).symm⟩
  · next holds =>
      have moves : holdsIfMove db row move sourceSeq now = true := by
        simpa using holds
      obtain ⟨_, _, attaches⟩ := bind_eq_ok.mp attaches
      split at attaches
      · next keyEpoch mode =>
          rcases sameNodeAttaching_publish attaches with released |
            ⟨chain, equal, reached, kept, epoch, notNew, settled⟩
          · exact .inl released
          · exact .inr ⟨moves, .inl ⟨chain, equal, reached, kept,
              by rw [epoch, mode]; rfl, notNew, settled⟩⟩
      · next id parentId keyEpoch parentKeyEpoch mode =>
          obtain ⟨parent, found, equal⟩ := bind_eq_ok.mp attaches
          exact .inr ⟨moves, .inr ⟨parent, id, parentId, keyEpoch,
            parentKeyEpoch, mode, (Except.ok.inj equal).symm, found⟩⟩

variable {parentId id parentKeyEpoch : Nat}

theorem moveToSibling_eq_ok
    {envelopeLength : Nat}
    (done : moveToSibling db uploadId row parentId id keyEpoch parentKeyEpoch
      envelopeLength = .ok after) :
    db.nodes.get? id = none ∧
      ∃ bound, bound =
          ({ db with
            nodes := db.nodes.set id
              (newNodeRow row.workspaceId (some parentId) .file keyEpoch
                parentKeyEpoch none) } : Database).rebound uploadId
            row.versionId id keyEpoch ∧
        after = if row.newNode then dropNode bound row.nodeId else bound := by
  simp only [moveToSibling, bind_eq_ok, exists_unit, refuseIf_eq_ok,
    insertNode_eq_ok, Except.ok.injEq] at done
  obtain ⟨_, ⟨fresh, rfl⟩, _, rfl⟩ := done
  exact ⟨fresh, _, rfl, rfl⟩

/-- A node made for a sibling, and its upload moved to it. -/
structure Sibling
    (db after : Database)
    (uploadId : Uuid)
    (row : Upload)
    (parentId id keyEpoch parentKeyEpoch : Nat) : Prop where
  node : ∃ node, after.nodes.get? id = some node ∧
    node.parentId = some parentId ∧ node.workspaceId = row.workspaceId
  upload : after.uploads.get? uploadId =
    some
      { row with
        nodeId := id
        keyEpoch := keyEpoch
        expectedVersionId := none
        newNode := true }
  objects : after.objects = db.objects
  versions : ∀ key version, after.versions.get? key = some version →
    key ≠ row.versionId → db.versions.get? key = some version
  parents : ∀ key other, db.nodes.get? key = some other →
    other.kind = .folder →
      ∃ later, after.nodes.get? key = some later ∧
        later.parentId = other.parentId

/-- Moving an upload to a sibling is a trail of changes. -/
theorem trail_moveToSibling
    (sound : Sound db)
    {workspaceId envelopeLength : Nat}
    {parent : Walk}
    (found : db.uploads.get? uploadId = some row)
    (live : row.status.live = true)
    (inside : row.workspaceId = workspaceId)
    (forParent : parentFor db workspaceId parentId keyEpoch parentKeyEpoch =
      .ok parent)
    (alone : care.spares → row.newNode = true → db.nodes.get? id = none →
      AloneOn db row)
    (hidden : care.hides → row.newNode = true → db.nodes.get? id = none →
      ∀ node, db.nodes.get? row.nodeId = some node → ¬ node.seen)
    (done : moveToSibling db uploadId row parent.id id keyEpoch
      parentKeyEpoch envelopeLength = .ok after) :
    Trail care db after ∧
      Sibling db after uploadId row parent.id id keyEpoch parentKeyEpoch := by
  obtain ⟨fresh, bound, isBound, isAfter⟩ := moveToSibling_eq_ok done
  obtain ⟨reached, parentInside, _, folder, _⟩ := parentFor_eq_ok forParent
  have itsId := (walked_of_walk reached).itsId
  obtain ⟨_, old, oldFound, oldInside, oldFile⟩ := sound.uploadRows found
  obtain ⟨workspace, storage⟩ := sound.nodeWorkspace oldFound
  rw [oldInside] at workspace storage
  have held := sound.holdsPath reached folder
    (parentInside.trans inside.symm)
  rw [← itsId] at held
  have apart : row.nodeId ≠ id := by
    rintro same
    rw [same, fresh] at oldFound
    cases oldFound
  have sprouted : Change care db
      { db with
        nodes := db.nodes.set id
          (newNodeRow row.workspaceId (some parent.id) .file keyEpoch
            parentKeyEpoch none) } :=
    .sprouted id _ parent.id parent.path fresh workspace storage rfl held rfl
      rfl rfl rfl rfl
  have rebound : Change care
      { db with
        nodes := db.nodes.set id
          (newNodeRow row.workspaceId (some parent.id) .file keyEpoch
            parentKeyEpoch none) } bound := by
    rw [isBound]
    exact .rebound uploadId row id keyEpoch found live
      ⟨_, get?_set_self _ _ _, rfl, rfl⟩
  have boundSound := (sound.change sprouted).change rebound
  have boundTrail := (Trail.one sprouted).more rebound
  have boundNodes : bound.nodes = db.nodes.set id
      (newNodeRow row.workspaceId (some parent.id) .file keyEpoch
        parentKeyEpoch none) := by
    rw [isBound]
    rfl
  have boundUpload : bound.uploads.get? uploadId = some
      { row with
        nodeId := id
        keyEpoch := keyEpoch
        expectedVersionId := none
        newNode := true } := by
    rw [isBound]
    simp [Database.rebound, Database.setUpload, Database.setVersion,
      get?_updateById, found]
  have boundVersion : ∀ key version,
      bound.versions.get? key = some version → key ≠ row.versionId →
        db.versions.get? key = some version := by
    intro key version present other
    rw [isBound] at present
    simpa [Database.rebound, Database.setUpload, Database.setVersion,
      get?_updateById, other] using present
  obtain ⟨own, ownFound, _, _⟩ := sound.uploadVersion found live
  have boundOwn : bound.versions.get? row.versionId =
      some { own with nodeId := id } := by
    rw [isBound]
    simp [Database.rebound, Database.setUpload, Database.setVersion,
      get?_updateById, ownFound]
  have boundNode : bound.nodes.get? id = some
      (newNodeRow row.workspaceId (some parent.id) .file keyEpoch
        parentKeyEpoch none) := by
    rw [boundNodes]
    exact get?_set_self _ _ _
  have boundOld : bound.nodes.get? row.nodeId = some old := by
    rw [boundNodes]
    exact get?_set_of_found fresh oldFound
  cases isNew : row.newNode with
  | false =>
    rw [isNew, if_neg (by simp)] at isAfter
    subst isAfter
    refine ⟨boundTrail, ⟨_, boundNode, rfl, rfl⟩, boundUpload, ?_,
      boundVersion, fun key other present _ => ⟨other, ?_, rfl⟩⟩
    · rw [isBound]
      rfl
    · rw [boundNodes]
      exact get?_set_of_found fresh present
  | true =>
    rw [isNew, if_pos rfl] at isAfter
    have there : bound.nodes.get? row.nodeId ≠ none := by
      rw [boundOld]
      simp
    have dropped : Change care bound after := by
      rw [isAfter]
      refine change_dropNode boundSound boundOld oldFile ?_ ?_
      · intro spares key version present onOld
        by_cases isOwn : key = row.versionId
        · rw [isOwn, boundOwn] at present
          obtain rfl := Option.some.inj present
          exact absurd onOld.symm apart
        · exact alone spares isNew fresh key version
            (boundVersion key version present isOwn) onOld isOwn
      · exact fun hides => hidden hides isNew fresh old oldFound
    rw [isAfter, dropNode_eq there] at *
    have stays : ∀ key node, bound.nodes.get? key = some node →
        key ≠ row.nodeId → ∃ later,
          (bound.deleteNodes (byId row.nodeId)).nodes.get? key =
            some later ∧
          later.parentId = node.parentId ∧
          later.workspaceId = node.workspaceId := by
      intro key node present other
      have left_ : byId row.nodeId key node = false := by
        simp [byId, other]
      obtain ⟨later, left, equal | equal⟩ := deleted_of_node present left_
      · exact ⟨later, left, by rw [equal], by rw [equal]⟩
      · exact ⟨later, left, by rw [equal], by rw [equal]⟩
    refine ⟨boundTrail.more dropped, ?_, ?_, ?_, ?_, ?_⟩
    · obtain ⟨later, left, sameParent, sameWorkspace⟩ :=
        stays id _ boundNode apart.symm
      exact ⟨later, left, sameParent, sameWorkspace⟩
    · refine upload_of_deleted.mpr ⟨boundUpload, ?_, ?_⟩
      · intro version present
        rw [boundOwn] at present
        obtain rfl := Option.some.inj present
        rw [meetsAt_byId there]
        simp [apart.symm]
      · rw [meetsAt_byId there]
        simp [apart.symm]
    · rw [isBound]
      rfl
    · intro key version present other
      exact boundVersion key version (version_of_deleted.mp present).1 other
    · intro key other present isFolder
      have differs : key ≠ row.nodeId := by
        rintro rfl
        rw [oldFound] at present
        obtain rfl := Option.some.inj present
        rw [oldFile] at isFolder
        cases isFolder
      have still : bound.nodes.get? key = some other := by
        rw [boundNodes]
        exact get?_set_of_found fresh present
      obtain ⟨later, left, sameParent, _⟩ := stays key other still differs
      exact ⟨later, left, sameParent⟩

/-- The sibling made for an upload can be published. -/
theorem publishes_of_sibling
    {workspaceId : Nat}
    {parent : Walk}
    (sound : Sound db)
    (forParent : parentFor db workspaceId parentId keyEpoch parentKeyEpoch =
      .ok parent)
    (sibling : Sibling db after uploadId row parent.id id keyEpoch
      parentKeyEpoch) :
    ∃ node,
      Publishes care after
        { row with
          nodeId := id
          keyEpoch := keyEpoch
          expectedVersionId := none
          newNode := true }
        parent.path none node := by
  obtain ⟨node, found, named, _⟩ := sibling.node
  obtain ⟨reached, parentInside, _, folder, _, within, _⟩ :=
    parentFor_eq_ok forParent
  have walked := walked_of_walk reached
  have itsId := walked.itsId
  refine ⟨node,
    { found := found
      place := fun _ => .inr ⟨parent.id, _, named, nearestFirst_path parent,
        ?_⟩
      within := fun _ _ => length_path_parentFor reached within
      seen := fun _ notNew => nomatch notNew
      taken := fun _ isNone => nomatch isNone }⟩
  have lineage := walked.lineage
  rw [← itsId] at lineage
  have folders : ∀ other ∈ parent.id :: nearestFirst parent.ancestors,
      ∀ row, db.nodes.get? other = some row → row.kind = .folder := by
    have above : ∀ (ids : List Uuid) (id : Uuid), Lineage db.nodes id ids →
        (∀ row, db.nodes.get? id = some row → row.kind = .folder) →
        ∀ other ∈ id :: ids, ∀ row, db.nodes.get? other = some row →
          row.kind = .folder := by
      intro ids
      induction ids with
      | nil =>
        intro id _ own other member row present
        rw [mem_singleton] at member
        exact own row (member ▸ present)
      | cons next rest inductionHypothesis =>
        intro id lineage own other member row present
        obtain ⟨self, selfFound, named, upper⟩ := lineage
        rcases mem_cons.mp member with same | others
        · exact own row (same ▸ present)
        · refine inductionHypothesis next upper ?_ other others row present
          intro nextRow nextFound
          obtain ⟨parentRow, parentFound, isFolder, _⟩ :=
            sound.nodeParent selfFound named
          rw [nextFound] at parentFound
          obtain rfl := Option.some.inj parentFound
          exact isFolder
    refine above _ _ lineage ?_
    intro row present
    rw [itsId, walked.found] at present
    obtain rfl := Option.some.inj present
    exact folder
  refine lineage_of_parents lineage fun other member row present => ?_
  exact sibling.parents other row present
    (folders other member row present)

/-- Attaching an upload is a trail of changes. -/
theorem trail_attachUpload
    (sound : Sound db)
    (workspaceId uploadId : Uuid)
    (input : AttachInput)
    (move : Option MoveRecord)
    (writer : Option Uuid)
    (now : Nat) :
    Trail
      (careOf db (.attachUpload workspaceId uploadId input move writer now))
      db
      (attachUpload db workspaceId uploadId input move writer now).2 := by
  refine trail_underCompletionLock
    fun changeSeq sourceSeq locked answer after taken done => ?_
  obtain ⟨first, rest⟩ : Trail
      (careOf db (.attachUpload workspaceId uploadId input move writer now))
      db locked ∧
      locked = { db with workspaces := locked.workspaces } :=
    lockForCompletion_eq_ok taken
  have lockedSound := sound.trail first
  obtain ⟨row, there, done⟩ := bind_eq_ok.mp done
  rw [orRefuse_eq_ok] at there
  obtain ⟨found, inside⟩ := getUpload_eq_some.mp there
  have versions : locked.versions = db.versions := by rw [rest]
  have nodes : locked.nodes = db.nodes := by rw [rest]
  split at done
  · cases done
  · cases done
  · cases done
  · cases done
  · next status =>
      have live : row.status.live = true := by rw [status]; rfl
      simp only [bind_eq_ok, orRefuse_eq_ok] at done
      obtain ⟨size, sized, attaching, attaches, done⟩ := done
      have comes : Attaches db workspaceId uploadId input move writer now row
          attaching :=
        ⟨changeSeq, sourceSeq, locked, taken, there, status, attaches⟩
      rcases attachingOf_cases attaches with ⟨answer, rfl⟩ |
        ⟨holds, ⟨chain, rfl, reached, kept, _, notNew, _⟩ |
          ⟨parent, id, parentId, keyEpoch, parentKeyEpoch, mode, rfl,
            forParent⟩⟩
      · simp only [attach, Except.ok.injEq, Prod.mk.injEq] at done
        obtain ⟨_, rfl⟩ := done
        refine trail_releaseUpload lockedSound found live rfl ?_ ?_
        · intro spares isNew key version present
          rw [versions] at present
          exact spares.1 row ⟨isNew, .inl ⟨_, comes⟩⟩ key version present
        · intro hides isNew node present
          rw [nodes] at present
          exact hides row ⟨isNew, .inl ⟨_, comes⟩⟩ node present
      · obtain ⟨_, _, done⟩ := bind_eq_ok.mp done
        have walked := walked_of_walk reached
        have rekeyed : Trail
            (careOf db
              (.attachUpload workspaceId uploadId input move writer now))
            locked
            (locked.setUpload uploadId fun upload =>
              { upload with keyEpoch := input.mode.keyEpoch }) :=
          trail_setUpload _ _ fun _ _ => ⟨rfl, rfl, rfl, rfl, rfl, rfl⟩
        have rekeyedFound : (locked.setUpload uploadId fun upload =>
            { upload with keyEpoch := input.mode.keyEpoch }).uploads.get?
              uploadId = some { row with keyEpoch := input.mode.keyEpoch } := by
          simp [Database.setUpload, get?_updateById, found]
        have publishes : Publishes
            (careOf db
              (.attachUpload workspaceId uploadId input move writer now))
            (locked.setUpload uploadId fun upload =>
              { upload with keyEpoch := input.mode.keyEpoch })
            { row with keyEpoch := input.mode.keyEpoch } chain.ancestors
            chain.node.currentVersionId chain.node := by
          refine
            { found := walked.found
              place := fun isNew => ?_
              within := fun _ isNew => ?_
              seen := fun shallow _ => ?_
              taken := ?_ }
          · rw [notNew] at isNew
            cases isNew
          · rw [notNew] at isNew
            cases isNew
          · exact ⟨shallow row chain comes chain.node (nodes ▸ walked.found),
              walked.kept kept⟩
          · intro old isOld key version present onNode ready notOld
            refine ⟨row, _, comes, fun _ => by simp, .inl ⟨chain, rfl,
              ⟨version, versions ▸ present, onNode⟩, ?_⟩⟩
            intro node nodeFound isCurrent
            rw [← nodes, walked.found] at nodeFound
            obtain rfl := Option.some.inj nodeFound
            rw [isCurrent] at isOld
            exact notOld (Option.some.inj isOld)
        refine rekeyed.trans (trail_publishAndSettle
          (lockedSound.trail rekeyed) rekeyedFound live sized publishes ?_
          done)
        exact
          { apart := fun source isMove =>
              (apart_of_holdsIfMove holds found live source isMove).1
            taken := fun source isMove key version present onSource _ =>
              ⟨row, _, comes, fun _ => by simp, .inr
                ⟨source, isMove, version, versions ▸ present, onSource⟩⟩
            buried := fun source isMove =>
              ⟨row, _, source, comes, fun _ => by simp, isMove, rfl⟩ }
      · obtain ⟨moved, moves, done⟩ := bind_eq_ok.mp done
        obtain ⟨trail, sibling⟩ : Trail
            (careOf db
              (.attachUpload workspaceId uploadId input move writer now))
            locked moved ∧
            Sibling locked moved uploadId row parent.id id keyEpoch
              parentKeyEpoch := by
          refine trail_moveToSibling lockedSound found live inside forParent
            ?_ ?_ moves
          · intro spares isNew fresh key version present
            rw [versions] at present
            rw [nodes] at fresh
            exact spares.1 row ⟨isNew, .inr ⟨parent, id, keyEpoch,
              parentKeyEpoch, comes, fresh⟩⟩ key version present
          · intro hides isNew fresh node present
            rw [nodes] at present fresh
            exact hides row ⟨isNew, .inr ⟨parent, id, keyEpoch,
              parentKeyEpoch, comes, fresh⟩⟩ node present
        obtain ⟨node, publishes⟩ :=
          publishes_of_sibling lockedSound forParent sibling
        have movedSized : moved.sizeOf row.objectId = some size := by
          rw [Database.sizeOf, sibling.objects]
          exact sized
        have movedSound := lockedSound.trail trail
        have fresh := (moveToSibling_eq_ok moves).1
        refine trail.trans (trail_publishAndSettle movedSound sibling.upload
          live movedSized publishes ?_ done)
        refine
          { apart := fun source isMove same => ?_
            taken := fun source isMove key version present onSource ready =>
              ⟨row, _, comes, fun _ => by simp, .inr
                ⟨source, isMove, version, ?_, onSource⟩⟩
            buried := fun source isMove =>
              ⟨row, _, source, comes, fun _ => by simp, isMove, rfl⟩ }
        · obtain ⟨_, node, nodeFound⟩ :=
            apart_of_holdsIfMove holds found live source isMove
          rw [same] at nodeFound
          rw [fresh] at nodeFound
          cases nodeFound
        · have other : key ≠ row.versionId := by
            rintro rfl
            obtain ⟨own, ownFound, pending, _⟩ :=
              movedSound.uploadVersion sibling.upload live
            rw [present] at ownFound
            obtain rfl := Option.some.inj ownFound
            rw [ready] at pending
            cases pending
          rw [← versions]
          exact sibling.versions key version present other

end Attaching

end Drive

end HushOS
