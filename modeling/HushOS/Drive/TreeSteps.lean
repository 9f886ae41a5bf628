import HushOS.Drive.Caring

namespace HushOS

open Toolkit List OrderedMap

namespace Drive

/-!
# Writes of the tree as trails

One lemma an operation: from sound tables, what it leaves is a few changes
away, and each change was checked as the operation checks it.  Here accounts,
shares and epochs, and what makes, marks and moves nodes.
-/

section Beside

variable {care : Care} {db : Database}

theorem trail_openWorkspace
    (id : Uuid)
    (groupId : Option Uuid)
    (baseQuotaBytes : Nat) :
    Trail care db (openWorkspace db id groupId baseQuotaBytes).2 := by
  unfold openWorkspace
  split
  · exact .done
  · next free =>
      simp only [Bool.or_eq_true, not_or, Bool.not_eq_true] at free
      exact .one (.opened id _ _ (has_eq_false.mp free.2) rfl rfl)

theorem trail_retireArea (id now : Nat) :
    Trail care db (retireArea db id now) := by
  refine .one (.workspace id _ fun row => ?_)
  split
  · rfl
  · rfl

theorem trail_grantShare (id : Uuid) (share : Share) :
    Trail care db (grantShare db id share).2 := by
  unfold grantShare
  split
  · exact .done
  · exact .one (.beside _ _ _ _)

theorem trail_recordObjectAudit (id : Uuid) (missing : Bool) :
    Trail care db (recordObjectAudit db id missing) := by
  refine .one (.object id _ (fun row => ?_) fun row => ?_)
  · split
    · rfl
    · rfl
  · split
    · rfl
    · rfl

theorem trail_markObjectReplicated (id now : Nat) :
    Trail care db (markObjectReplicated db id now) := by
  refine Trail.more (.one (.object id _ ?_ ?_)) (.outbox id _ ?_)
  · exact fun _ => rfl
  · exact fun _ => rfl
  · exact fun _ => rfl

theorem trail_allocateKeyEpochs
    (workspaceId count : Nat)
    (writer : Option Uuid)
    (now : Nat) :
    Trail care db (allocateKeyEpochs db workspaceId count writer now).2 := by
  unfold allocateKeyEpochs
  split
  · split
    · exact .done
    · exact .one (.workspace workspaceId _ fun _ => rfl)
  · exact .done

end Beside

section Creating

variable {care : Care} {db : Database}

theorem insertNode_eq_ok
    {id : Uuid}
    {row : Node}
    {taken : Answer}
    {after : Database} :
    insertNode db id row taken = .ok after ↔
      db.nodes.get? id = none ∧
        after = { db with nodes := db.nodes.set id row } := by
  unfold insertNode
  cases db.nodes.get? id with
  | none => simp [eq_comm]
  | some _ => simp

theorem Sound.more
    (sound : Sound db)
    (workspaceId count : Nat) :
    Sound (moreChangeSeqs db workspaceId count) :=
  sound.workspace workspaceId _

theorem has_of_epoch
    {workspaceId keyEpoch : Nat}
    (allocated : epochWasAllocated db workspaceId keyEpoch = true) :
    db.workspaces.has workspaceId = true := by
  unfold epochWasAllocated at allocated
  cases found : db.workspaces.get? workspaceId with
  | none =>
    rw [found] at allocated
    cases allocated
  | some row =>
    exact has_of_get? found

/-- Creating a root is a trail of changes. -/
theorem trail_createRoot
    (sound : Sound db)
    (workspaceId userId id keyEpoch parentKeyEpoch : Nat)
    (signed : Bool)
    (now : Nat) :
    Trail care db
      (createRoot db workspaceId userId id keyEpoch parentKeyEpoch signed
        now).2 := by
  refine trail_underLock fun changeSeq answer after done => ?_
  have lockedSound := sound.more workspaceId 1
  simp only [bind_eq_ok, exists_unit, refuseIf_eq_ok, insertNode_eq_ok,
    Bool.not_eq_true, Option.isSome_eq_false_iff, Option.isNone_iff_eq_none,
    Except.ok.injEq, Prod.mk.injEq] at done
  obtain ⟨noRoot, allocated, _, created, ⟨fresh, rfl⟩, _, rfl⟩ := done
  have there := has_of_epoch (by simpa using allocated)
  refine .one (.grown id _ [] fresh there
    (lockedSound.workspaceStorage there) ?_ ?_ rfl ?_ ?_)
  · intro parentId named
    cases named
  · simp [newNodeRow]
  · exact Nat.zero_le _
  · refine fun _ => ⟨rfl, rfl, fun other otherRow found inside isRoot => ?_⟩
    have member : (other, otherRow) ∈
        (moreChangeSeqs db workspaceId 1).nodes.select fun _ row =>
          row.workspaceId = workspaceId && row.parentId.isNone := by
      refine mem_select.mpr ⟨found, ?_⟩
      simp only [newNodeRow] at inside
      simp [inside, isRoot]
    rw [rootOf, head?_eq_none_iff] at noRoot
    rw [noRoot] at member
    cases member

end Creating

section Lineages

variable {db : Database}

/-- A lineage stays where the parents on it stay. -/
theorem lineage_of_parents
    {nodes after : OrderedMap Uuid Node}
    {ids : List Uuid}
    {id : Uuid}
    (lineage : Lineage nodes id ids)
    (same : ∀ other ∈ id :: ids, ∀ row, nodes.get? other = some row →
      ∃ later, after.get? other = some later ∧
        later.parentId = row.parentId) :
    Lineage after id ids := by
  induction ids generalizing id with
  | nil =>
    obtain ⟨row, found, isRoot⟩ := lineage
    obtain ⟨later, there, parent⟩ := same id (by simp) row found
    exact ⟨later, there, parent.trans isRoot⟩
  | cons parent above inductionHypothesis =>
    obtain ⟨row, found, named, upper⟩ := lineage
    obtain ⟨later, there, itsParent⟩ := same id (by simp) row found
    refine ⟨later, there, itsParent.trans named,
      inductionHypothesis upper fun other member => ?_⟩
    exact same other (mem_cons_of_mem _ member)

theorem found_of_lineage
    {nodes : OrderedMap Uuid Node}
    {ids : List Uuid}
    {id other : Uuid}
    (lineage : Lineage nodes id ids)
    (member : other ∈ id :: ids) :
    ∃ row, nodes.get? other = some row := by
  induction ids generalizing id with
  | nil =>
    obtain ⟨row, found, _⟩ := lineage
    rw [mem_singleton] at member
    exact ⟨row, member ▸ found⟩
  | cons parent above inductionHypothesis =>
    obtain ⟨row, found, _, upper⟩ := lineage
    rcases mem_cons.mp member with same | rest
    · exact ⟨row, same ▸ found⟩
    · exact inductionHypothesis upper rest

/-- A checked path stays checked where its rows keep their place. -/
theorem HoldsPath.after
    {after : Database}
    {workspaceId parentId : Uuid}
    {path : List Ancestor}
    (held : HoldsPath db workspaceId parentId path)
    (same : ∀ other row, db.nodes.get? other = some row →
      ∃ later, after.nodes.get? other = some later ∧
        later.parentId = row.parentId ∧ later.kind = row.kind ∧
        later.workspaceId = row.workspaceId ∧
        (row.changeSeq ≠ none → later.changeSeq ≠ none)) :
    HoldsPath after workspaceId parentId path := by
  obtain ⟨row, found, folder, inside, shown⟩ := held.folder
  obtain ⟨above, nearest, lineage⟩ := held.lineage
  obtain ⟨later, there, _, kind, workspace, stays⟩ := same _ row found
  refine ⟨⟨later, there, kind.trans folder, workspace.trans inside,
    stays shown⟩, above, nearest, lineage_of_parents lineage ?_⟩
  intro other _ row found
  obtain ⟨later, there, parent, _⟩ := same other row found
  exact ⟨later, there, parent⟩

theorem get?_grown
    {id other : Uuid}
    {row earlier : Node}
    (path : List Ancestor)
    (fresh : db.nodes.get? id = none)
    (found : db.nodes.get? other = some earlier) :
    ∃ later,
      (raiseHeightBounds { db with nodes := db.nodes.set id row } path
        0).nodes.get? other = some later ∧
      later.parentId = earlier.parentId ∧ later.kind = earlier.kind ∧
      later.workspaceId = earlier.workspaceId ∧
      (earlier.changeSeq ≠ none → later.changeSeq ≠ none) := by
  have still : ({ db with nodes := db.nodes.set id row } :
      Database).nodes.get? other = some earlier :=
    get?_set_of_found fresh found
  refine ⟨{ earlier with
    heightBound := max earlier.heightBound (reach 0 other path) },
    ?_, rfl, rfl, rfl, fun shown => shown⟩
  rw [get?_raiseHeightBounds, still]
  rfl

end Lineages

section Folders

variable {care : Care} {db : Database}

/-- What a batch of folders knows of those it made. -/
def MadeHolds (workspaceId : Uuid) (batch : FolderBatch) : Prop :=
  ∀ id made, batch.made.get? id = some made →
    HoldsPath batch.db workspaceId id made.path ∧
      made.path.length = made.depth + 1

variable {workspaceId : Uuid} {batch : FolderBatch}

/-- The parent found for a folder comes with its checked path. -/
theorem holdsPath_of_folderParent
    {parentId : Uuid}
    {parent : MadeFolder}
    (sound : Sound batch.db)
    (holds : MadeHolds workspaceId batch)
    (found : folderParent batch workspaceId parentId = .ok parent) :
    HoldsPath batch.db workspaceId parentId parent.path ∧
      parent.path.length = parent.depth + 1 := by
  unfold folderParent at found
  cases made : batch.made.get? parentId with
  | some folder =>
    rw [made] at found
    obtain rfl := Except.ok.inj found
    exact holds parentId folder made
  | none =>
    rw [made] at found
    simp only [bind_eq_ok, exists_unit, refuseIf_eq_ok, walkTo_eq_ok]
      at found
    obtain ⟨chain, ⟨reached, inside, _, folder⟩, _, _, equal⟩ := found
    obtain rfl := Except.ok.inj equal
    have walked := walked_of_walk reached
    refine ⟨sound.holdsPath reached folder inside, ?_⟩
    rw [length_path, walked.depth]

/-- Creating a folder is a trail of changes. -/
theorem trail_createFolder
    {after : FolderBatch}
    {folder : NewFolder}
    (sound : Sound batch.db)
    (holds : MadeHolds workspaceId batch)
    (done : createFolder workspaceId batch folder = .ok after) :
    Trail care batch.db after.db ∧ MadeHolds workspaceId after := by
  unfold createFolder at done
  simp only [bind_eq_ok, exists_unit, refuseIf_eq_ok, insertNode_eq_ok,
    Bool.not_eq_true, Except.ok.injEq] at done
  obtain ⟨parent, found, within, _, allocated, created, ⟨fresh, rfl⟩, rfl⟩ :=
    done
  obtain ⟨held, length⟩ := holdsPath_of_folderParent sound holds found
  have there := has_of_epoch (by simpa using allocated)
  have grown : Change care batch.db
      (raiseHeightBounds
        { batch.db with
          nodes := batch.db.nodes.set folder.id
            (newNodeRow workspaceId (some folder.parentId) .folder
              folder.keyEpoch folder.parentKeyEpoch
              (some batch.changeSeq)) }
        parent.path 0) := by
    refine .grown folder.id _ parent.path fresh there
      (sound.workspaceStorage there) ?_ ?_ rfl ?_ ?_
    · intro parentId named
      obtain rfl := Option.some.inj named
      exact held
    · simp [newNodeRow]
    · omega
    · intro isRoot
      cases isRoot
  refine ⟨.one grown, ?_⟩
  intro id made known
  rcases get?_set_cases known with ⟨same, equal⟩ | ⟨_, earlier⟩
  · subst same equal
    obtain ⟨above, nearest, lineage⟩ := held.lineage
    refine ⟨⟨?_, folder.parentId :: above, ?_, ?_⟩, ?_⟩
    · refine ⟨{ newNodeRow workspaceId (some folder.parentId) .folder
          folder.keyEpoch folder.parentKeyEpoch (some batch.changeSeq) with
          heightBound := max 0 (reach 0 folder.id parent.path) },
        ?_, rfl, rfl, by simp [newNodeRow]⟩
      rw [get?_raiseHeightBounds, get?_set_self]
      rfl
    · simp only [nearestFirst] at nearest ⊢
      simp [nearest]
    · refine ⟨{ newNodeRow workspaceId (some folder.parentId) .folder
          folder.keyEpoch folder.parentKeyEpoch (some batch.changeSeq) with
          heightBound := max 0 (reach 0 folder.id parent.path) },
        ?_, rfl, ?_⟩
      · rw [get?_raiseHeightBounds, get?_set_self]
        rfl
      · refine lineage_of_parents lineage fun other _ row found => ?_
        obtain ⟨later, still, parentSame, _⟩ :=
          get?_grown parent.path fresh found
        exact ⟨later, still, parentSame⟩
    · simp [length]
  · obtain ⟨held, length⟩ := holds id made earlier
    exact ⟨held.after fun other row found =>
      get?_grown parent.path fresh found, length⟩

theorem trail_foldCreateFolder
    {after : FolderBatch}
    {folders : List NewFolder}
    (sound : Sound batch.db)
    (holds : MadeHolds workspaceId batch)
    (done : foldEach (createFolder workspaceId) batch folders = .ok after) :
    Trail care batch.db after.db := by
  induction folders generalizing batch with
  | nil =>
    obtain rfl := Except.ok.inj done
    exact .done
  | cons folder rest inductionHypothesis =>
    obtain ⟨middle, first, others⟩ := bind_eq_ok.mp done
    obtain ⟨trail, middleHolds⟩ :
        Trail care batch.db middle.db ∧ MadeHolds workspaceId middle :=
      trail_createFolder sound holds first
    exact trail.trans
      (inductionHypothesis (sound.trail trail) middleHolds others)

theorem trail_createFolders
    (sound : Sound db)
    (workspaceId userId : Uuid)
    (folders : List NewFolder)
    (signed : Bool)
    (now : Nat) :
    Trail care db
      (createFolders db workspaceId userId folders signed now).2 := by
  refine trail_keepingUnderLock fun changeSeq answer after done => ?_
  simp only [bind_eq_ok, exists_unit, refuseIf_eq_ok, Except.ok.injEq,
    Prod.mk.injEq] at done
  obtain ⟨_, batch, folded, _, rfl⟩ := done
  refine (trail_moreChangeSeqs _ workspaceId (folders.length - 1)).trans
    (trail_foldCreateFolder
      ((sound.more workspaceId 1).more workspaceId _) ?_ folded)
  intro id made known
  cases known

end Folders

section Marking

variable {care : Care} {db : Database}

theorem trail_renameNode
    (workspaceId nodeId userId metadataVersion keyEpoch : Nat)
    (signed : Bool)
    (now : Nat)
    (shown : care.shallow → ShownAt db nodeId) :
    Trail care db
      (renameNode db workspaceId nodeId userId metadataVersion keyEpoch
        signed now).2 := by
  refine trail_underLock fun changeSeq answer after done => ?_
  simp only [bind_eq_ok, exists_unit, refuseIf_eq_ok, Except.ok.injEq,
    Prod.mk.injEq] at done
  obtain ⟨_, _, _, _, _, _, rfl⟩ := done
  refine .one (change_setNode fun row found => ?_)
  exact
    { workspaceId := rfl
      parentId := rfl
      kind := rfl
      heightBound := rfl
      currentVersionId := rfl
      shown := fun _ => by simp
      trashed := fun _ => by simp
      seen := fun shallow seen => ⟨shown shallow row found, seen.2⟩
      purged := .inl rfl }

theorem refuseWith_eq_ok {refusal : Option Outcome} {nothing : Unit} :
    refuseWith refusal = .ok nothing ↔ refusal = none := by
  cases refusal with
  | none => simp [refuseWith]
  | some outcome => simp [refuseWith]

theorem trail_trashNode
    (workspaceId nodeId : Uuid)
    (writer : Option Uuid)
    (now : Nat)
    (shown : care.shallow → ShownAt db nodeId) :
    Trail care db (trashNode db workspaceId nodeId writer now).2 := by
  refine trail_underLock fun changeSeq answer after done => ?_
  simp only [bind_eq_ok, exists_unit, refuseWith_eq_ok, Except.ok.injEq,
    Prod.mk.injEq] at done
  obtain ⟨_, _, rfl⟩ := done
  refine trail_markTrashed _ _ _ fun shallow id member row found => ?_
  rw [mem_singleton] at member
  exact shown shallow row (member ▸ found)

theorem mem_of_going
    {refusal : Uuid → Option Outcome}
    {nodeIds : List Uuid}
    {id : Uuid}
    (member : id ∈ going db refusal nodeIds) :
    id ∈ nodeIds :=
  mem_of_mem_filter (mem_of_mem_filter member)

theorem trail_trashNodes
    (workspaceId : Uuid)
    (nodeIds : List Uuid)
    (writer now : Nat)
    (shown : care.shallow → ∀ id ∈ nodeIds, ShownAt db id) :
    Trail care db (trashNodes db workspaceId nodeIds writer now).2 := by
  unfold trashNodes
  dsimp only
  split
  · exact .done
  · split
    · exact .done
    · refine trail_underLock fun firstSeq answer after done => ?_
      simp only [Except.ok.injEq, Prod.mk.injEq] at done
      obtain ⟨_, rfl⟩ := done
      refine (trail_moreChangeSeqs _ _ _).trans
        (trail_markTrashed _ _ _ fun shallow id member row found => ?_)
      exact shown shallow id (mem_of_going member) row found

theorem trail_removeNode
    (workspaceId nodeId now : Nat)
    (shown : care.shallow → ShownAt db nodeId) :
    Trail care db (removeNode db workspaceId nodeId now).2 := by
  refine trail_underLock fun changeSeq answer after done => ?_
  simp only [bind_eq_ok, exists_unit, refuseIf_eq_ok, Except.ok.injEq,
    Prod.mk.injEq] at done
  obtain ⟨_, _, _, _, rfl⟩ := done
  refine (Trail.one (change_setNode fun row found => ?_)).more
    (.beside _ _ _ _)
  exact
    { workspaceId := rfl
      parentId := rfl
      kind := rfl
      heightBound := rfl
      currentVersionId := rfl
      shown := fun _ => by simp
      trashed := fun _ => by simp
      seen := fun shallow seen => ⟨shown shallow row found, seen.2⟩
      purged := .inl rfl }

variable {workspaceId : Uuid}

/-- A node coming back is refused by nothing. -/
theorem mem_of_comingBack
    {nodeIds : List Uuid}
    {id : Uuid}
    (member : id ∈ comingBack db workspaceId nodeIds) :
    restoreRefusal (walk db id) workspaceId = none := by
  have onePass : ∀ above waiting back,
      (∀ id ∈ (restorePass above waiting back).1, id ∈ waiting) ∧
        ∀ id ∈ (restorePass above waiting back).2,
          id ∈ waiting ∨ id ∈ back := by
    intro above waiting
    induction waiting with
    | nil =>
      intro back
      exact ⟨fun id member => member, fun id member => .inr member⟩
    | cons first rest inductionHypothesis =>
      intro back
      rw [restorePass]
      split
      · obtain ⟨left, after⟩ := inductionHypothesis (back ++ [first])
        refine ⟨fun id member => mem_cons_of_mem _ (left id member),
          fun id member => ?_⟩
        rcases after id member with waits | isBack
        · exact .inl (mem_cons_of_mem _ waits)
        · rcases mem_append.mp isBack with earlier | own
          · exact .inr earlier
          · rw [mem_singleton] at own
            exact .inl (own ▸ mem_cons_self)
      · obtain ⟨left, after⟩ := inductionHypothesis back
        refine ⟨fun id member => ?_, fun id member => ?_⟩
        · rcases mem_cons.mp member with same | waits
          · exact same ▸ mem_cons_self
          · exact mem_cons_of_mem _ (left id waits)
        · exact (after id member).imp (mem_cons_of_mem _) fun isBack =>
            isBack
  have passes : ∀ above count waiting back,
      ∀ id ∈ (restorePasses above count waiting back).2,
        id ∈ waiting ∨ id ∈ back := by
    intro above count
    induction count with
    | zero =>
      exact fun waiting back id member => .inr member
    | succ count inductionHypothesis =>
      intro waiting back id member
      obtain ⟨left, after⟩ := onePass above waiting back
      simp only [restorePasses] at member
      split at member
      · exact after id member
      · rcases inductionHypothesis _ _ id member with waits | isBack
        · exact .inl (left id waits)
        · exact after id isBack
  rcases passes _ _ _ _ id member with waits | isBack
  · simpa using (mem_filter.mp waits).2
  · cases isBack

/-- A node that may be restored is in the workspace's trash. -/
theorem trashed_of_restoreRefusal
    {id : Uuid}
    (passes : restoreRefusal (walk db id) workspaceId = none) :
    ∃ chain, walk db id = some chain ∧
      chain.node.workspaceId = workspaceId ∧ chain.purged = false ∧
      chain.node.trashedAt ≠ none := by
  unfold restoreRefusal at passes
  cases reached : walk db id with
  | none =>
    rw [reached] at passes
    cases passes
  | some chain =>
    rw [reached] at passes
    simp only at passes
    split at passes
    · cases passes
    · next here =>
        split at passes
        · cases passes
        · next trashed =>
            simp only [Walk.here, Bool.not_eq_true', Bool.and_eq_false_imp,
              decide_eq_true_eq, Bool.not_eq_false', not_forall] at here
            obtain ⟨inside, kept⟩ := here
            exact ⟨chain, rfl, inside, by simpa using kept, trashed⟩

theorem shownAt_of_trashed
    (sound : Sound db)
    {id : Uuid}
    (passes : restoreRefusal (walk db id) workspaceId = none) :
    ShownAt db id := by
  intro row found
  obtain ⟨chain, reached, _, _, trashed⟩ := trashed_of_restoreRefusal passes
  have there := (walked_of_walk reached).found
  rw [found] at there
  obtain rfl := Option.some.inj there
  exact sound.shown found (.inr (.inl trashed))

theorem trail_restoreNodes
    (sound : Sound db)
    (workspaceId : Uuid)
    (nodeIds : List Uuid)
    (writer now : Nat) :
    Trail care db (restoreNodes db workspaceId nodeIds writer now).2 := by
  unfold restoreNodes
  split
  · exact .done
  · refine trail_underLock fun firstSeq answer after done => ?_
    simp only [Except.ok.injEq, Prod.mk.injEq] at done
    obtain ⟨_, rfl⟩ := done
    refine (trail_moreChangeSeqs _ _ _).trans
      (trail_markTrashed _ _ _ fun _ id member row found => ?_)
    exact shownAt_of_trashed (sound.more workspaceId 1)
      (mem_of_comingBack member) row found

end Marking

section Placing

variable {care : Care} {db : Database}

variable {chain : Walk}

/-- Placing a node under a checked folder is one of the changes. -/
theorem change_placed
    (sound : Sound db)
    {nodeId : Uuid}
    {destination : Walk}
    {change : Node → Node}
    (reached : walk db nodeId = some chain)
    (notRoot : chain.node.parentId ≠ none)
    (destinationReached : walk db destination.id = some destination)
    (folder : destination.node.kind = .folder)
    (inside : destination.node.workspaceId = chain.node.workspaceId)
    (notBelow : destination.inside nodeId = false)
    (within : destination.depth + 1 + chain.node.heightBound ≤ MAX_DEPTH)
    (parent : (change chain.node).parentId = some destination.id)
    (sameWorkspace :
      (change chain.node).workspaceId = chain.node.workspaceId)
    (sameKind : (change chain.node).kind = chain.node.kind)
    (sameHeight : (change chain.node).heightBound = chain.node.heightBound)
    (sameCurrent :
      (change chain.node).currentVersionId = chain.node.currentVersionId)
    (samePurged : (change chain.node).purgedAt = chain.node.purgedAt)
    (shown : (change chain.node).changeSeq ≠ none) :
    Change care db
      (raiseHeightBounds (db.setNode nodeId change) destination.path
        chain.node.heightBound) := by
  have walked := walked_of_walk destinationReached
  refine .placed nodeId chain.node change destination.id destination.path
    (walked_of_walk reached).found
    (sound.holdsPath destinationReached folder inside) ?_ notRoot ?_ parent
    sameWorkspace sameKind sameHeight sameCurrent samePurged shown
  · intro member
    rw [← inside_eq_true, notBelow] at member
    cases member
  · rw [length_path, ← walked.depth]
    exact within

theorem raiseHeightBounds_recordShareEvents
    (db : Database)
    (changeSeq nodeId : Nat)
    (fromChain toChain : List Uuid)
    (path : List Ancestor)
    (leafHeight : Nat) :
    raiseHeightBounds
        (recordShareEvents db changeSeq nodeId fromChain toChain) path
        leafHeight =
      recordShareEvents (raiseHeightBounds db path leafHeight) changeSeq
        nodeId fromChain toChain := by
  have same := raiseHeightBounds_nodes
    (show (recordShareEvents db changeSeq nodeId fromChain toChain).nodes =
      db.nodes from rfl) path leafHeight
  rw [raiseHeightBounds_rest, same, raiseHeightBounds_rest db]
  rfl

/-- Moving a node is a trail of changes. -/
theorem trail_moveNode
    (sound : Sound db)
    (workspaceId : Uuid)
    (writer : Option Uuid)
    (nodeId parentId parentKeyEpoch now : Nat) :
    Trail care db
      (moveNode db workspaceId writer nodeId parentId parentKeyEpoch
        now).2 := by
  refine trail_underLock fun changeSeq answer after done => ?_
  obtain ⟨⟨chain, destination⟩, walks, equal⟩ := bind_eq_ok.mp done
  simp only [Except.ok.injEq, Prod.mk.injEq] at equal
  obtain ⟨_, rfl⟩ := equal
  simp only [moveWalks, bind_eq_ok, exists_unit, refuseIf_eq_ok,
    walkHere_eq_ok, walkTo_eq_ok, Except.ok.injEq, Prod.mk.injEq,
    Bool.not_eq_true] at walks
  obtain ⟨chain', ⟨reached, inside, _⟩, notRoot, _, destination',
    ⟨destinationReached, destinationInside, _, folder⟩, _, notBelow, within,
    _, _, rfl, rfl⟩ := walks
  have itsId := (walked_of_walk destinationReached).itsId
  subst itsId
  rw [raiseHeightBounds_recordShareEvents]
  refine (Trail.one (change_placed (sound.more workspaceId 1) reached notRoot
    destinationReached folder (destinationInside.trans inside.symm) notBelow
    ?_ rfl rfl rfl rfl rfl rfl ?_)).more (.beside _ _ _ _)
  · omega
  · simp

variable {id : Uuid}

/-- A walk that ends has its workspace's root on top. -/
theorem root_of_walk
    (sound : Sound db)
    {root : Walk}
    (reached : walk db id = some chain)
    (notRoot : chain.node.parentId ≠ none)
    (rootReached : walk db chain.rootId = some root) :
    root.node.kind = .folder ∧
      root.node.workspaceId = chain.node.workspaceId ∧
      root.node.parentId = none ∧ chain.rootId ≠ id := by
  have walked := walked_of_walk reached
  have rootFound := (walked_of_walk rootReached).found
  have tops : ∀ (ids : List Uuid) (id : Uuid) (row : Node),
      db.nodes.get? id = some row → row.parentId ≠ none →
      Lineage db.nodes id ids →
      ∃ top, db.nodes.get? (ids.getLast?.getD id) = some top ∧
        top.kind = .folder ∧ top.workspaceId = row.workspaceId ∧
        top.parentId = none := by
    intro ids
    induction ids with
    | nil =>
      intro id row found notRoot lineage
      obtain ⟨other, otherFound, isRoot⟩ := lineage
      rw [found] at otherFound
      obtain rfl := Option.some.inj otherFound
      exact absurd isRoot notRoot
    | cons parent above inductionHypothesis =>
      intro id row found _ lineage
      obtain ⟨other, otherFound, named, upper⟩ := lineage
      rw [found] at otherFound
      obtain rfl := Option.some.inj otherFound
      obtain ⟨parentRow, parentFound, folder, inside, _⟩ :=
        sound.nodeParent found named
      rw [getLast?_cons, Option.getD_some]
      by_cases isRoot : parentRow.parentId = none
      · cases above with
        | nil => exact ⟨parentRow, parentFound, folder, inside, isRoot⟩
        | cons next rest =>
          obtain ⟨again, againFound, againNamed, _⟩ := upper
          rw [parentFound] at againFound
          obtain rfl := Option.some.inj againFound
          rw [isRoot] at againNamed
          cases againNamed
      · obtain ⟨top, topFound, topFolder, topInside, topRoot⟩ :=
          inductionHypothesis parent parentRow parentFound isRoot upper
        exact ⟨top, topFound, topFolder, topInside.trans inside, topRoot⟩
  obtain ⟨top, topFound, folder, inside, isRoot⟩ :=
    tops _ _ _ walked.found notRoot walked.lineage
  rw [← walked.top] at topFound
  rw [topFound] at rootFound
  obtain rfl := Option.some.inj rootFound
  refine ⟨folder, inside, isRoot, ?_⟩
  intro same
  rw [same, walked.found] at topFound
  rw [Option.some.inj topFound] at notRoot
  exact notRoot isRoot

theorem ancestors_of_root
    {root : Walk}
    (reached : walk db id = some root)
    (isRoot : root.node.parentId = none) :
    root.ancestors = [] := by
  have walked := walked_of_walk reached
  have lineage := walked.lineage
  cases nearest : nearestFirst root.ancestors with
  | nil =>
    simpa [nearestFirst] using nearest
  | cons parent above =>
    rw [nearest] at lineage
    obtain ⟨row, found, named, _⟩ := lineage
    rw [walked.found] at found
    obtain rfl := Option.some.inj found
    rw [isRoot] at named
    cases named

theorem parent_of_ancestors
    (reached : walk db id = some chain)
    (above : chain.ancestors ≠ []) :
    chain.node.parentId ≠ none :=
  fun isRoot => above (ancestors_of_root reached isRoot)

theorem ancestors_of_trashedAncestors
    (reached : walk db id = some chain)
    (trashed : chain.trashedAncestors ≠ []) :
    chain.ancestors ≠ [] := by
  obtain ⟨self, above, _, _, rfl⟩ := walk_eq_some.mp reached
  intro empty
  cases above with
  | nil => exact trashed rfl
  | cons next rest => simp [walkOf] at empty

/-- Restoring a node is a trail of changes. -/
theorem trail_restoreNode
    (sound : Sound db)
    (workspaceId : Uuid)
    (writer : Option Uuid)
    (nodeId : Uuid)
    (toRoot : Option Nat)
    (now : Nat) :
    Trail care db
      (restoreNode db workspaceId writer nodeId toRoot now).2 := by
  refine trail_underLock fun changeSeq answer after done => ?_
  have lockedSound := sound.more workspaceId 1
  simp only [bind_eq_ok, exists_unit, refuseWith_eq_ok, orRefuse_eq_ok]
    at done
  obtain ⟨passes, chain, reached, rest⟩ := done
  split at rest
  · simp only [Except.ok.injEq, Prod.mk.injEq] at rest
    obtain ⟨_, rfl⟩ := rest
    refine trail_markTrashed _ _ _ fun _ id member row found => ?_
    rw [mem_singleton] at member
    subst member
    exact shownAt_of_trashed lockedSound passes row found
  · next trashedAbove =>
      simp only [bind_eq_ok, exists_unit, orRefuse_eq_ok, restoreRoot,
        refuseIf_eq_ok, Except.ok.injEq, Prod.mk.injEq] at rest
      obtain ⟨parentKeyEpoch, _, root', ⟨root, rootReached, _, _, within,
        rfl⟩, _, rfl⟩ := rest
      have notRoot := parent_of_ancestors reached
        (ancestors_of_trashedAncestors reached trashedAbove)
      obtain ⟨folder, inside, isRoot, apart⟩ :=
        root_of_walk lockedSound reached notRoot rootReached
      have itsId := (walked_of_walk rootReached).itsId
      have noneAbove := ancestors_of_root rootReached isRoot
      have path : root.path = [ancestorOf (root.id, root.node)] := by
        simp [Walk.path, noneAbove]
      rw [← itsId] at rootReached
      rw [← path]
      refine .one (change_placed lockedSound reached notRoot rootReached
        folder inside ?_ ?_ (by rw [itsId]) rfl rfl rfl rfl rfl (by simp))
      · cases met : root.inside nodeId with
        | false => rfl
        | true =>
          rw [inside_eq_true, path] at met
          simp only [nearestFirst, ancestorOf, map_cons,
            map_nil, reverse_cons, reverse_nil,
            nil_append, mem_singleton] at met
          exact absurd (itsId.symm.trans met.symm) apart
      · rw [(walked_of_walk rootReached).depth, noneAbove]
        simp only [length_nil]
        omega

end Placing

end Drive

end HushOS
