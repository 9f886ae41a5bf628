import HushOS.Drive.Accounting
import HushOS.Drive.Walking

namespace HushOS

open Toolkit List OrderedMap

namespace Drive

/-!
# The shared writes as changes

What the steps several operations take come to: the lock, marks on nodes,
released and published uploads, purged versions and nodes.
-/

section Locks

variable {care : Care} {db : Database}

variable {workspaceId : Uuid} {writer : Option Uuid} {body : Nat → Database → Body}
  {now : Nat}

/-- A lock taken gives the workspace's next change number. -/
theorem nextChangeSeq_eq_ok
    {roster : Bool}
    {now changeSeq : Nat}
    {locked : Database}
    (taken : nextChangeSeq db workspaceId writer roster now =
      .ok (changeSeq, locked)) :
    locked = moreChangeSeqs db workspaceId 1 ∧
      ∃ row, db.workspaces.get? workspaceId = some row ∧
        changeSeq = row.changeSeq + 1 := by
  unfold nextChangeSeq at taken
  cases found : db.workspaces.get? workspaceId with
  | none =>
    rw [found] at taken
    cases taken
  | some row =>
    rw [found] at taken
    have equal : (row.changeSeq + 1, moreChangeSeqs db workspaceId 1) =
        (changeSeq, locked) := by
      cases writer with
      | none =>
        exact Except.ok.inj taken
      | some writer =>
        obtain ⟨_, _, equal⟩ := bind_eq_ok.mp taken
        exact Except.ok.inj equal
    rw [Prod.mk.injEq] at equal
    exact ⟨equal.2.symm, row, rfl, equal.1.symm⟩

theorem trail_moreChangeSeqs
    (db : Database)
    (workspaceId : Uuid)
    (count : Nat) :
    Trail care db (moreChangeSeqs db workspaceId count) :=
  .one (.workspace workspaceId _ fun _ => rfl)

theorem trail_underRosterLock
    {roster : Bool}
    (trails : ∀ changeSeq answer after,
      body changeSeq (moreChangeSeqs db workspaceId 1) = .ok (answer, after) →
        Trail care (moreChangeSeqs db workspaceId 1) after) :
    Trail care db
      (underRosterLock db workspaceId writer roster now body).2 := by
  unfold underRosterLock
  split
  · exact .done
  · next changeSeq locked taken =>
      obtain ⟨rfl, _⟩ := nextChangeSeq_eq_ok taken
      have first : Trail care db (moreChangeSeqs db workspaceId 1) :=
        trail_moreChangeSeqs db workspaceId 1
      split
      · split
        · exact .done
        · exact first
      · next result written =>
          exact first.trans (trails changeSeq result.1 result.2 written)

theorem trail_underLock
    (trails : ∀ changeSeq answer after,
      body changeSeq (moreChangeSeqs db workspaceId 1) = .ok (answer, after) →
        Trail care (moreChangeSeqs db workspaceId 1) after) :
    Trail care db (underLock db workspaceId writer now body).2 :=
  trail_underRosterLock trails

theorem trail_keepingUnderLock
    (trails : ∀ changeSeq answer after,
      body changeSeq (moreChangeSeqs db workspaceId 1) = .ok (answer, after) →
        Trail care (moreChangeSeqs db workspaceId 1) after) :
    Trail care db (keepingUnderLock db workspaceId writer now body).2 := by
  unfold keepingUnderLock
  split
  · exact .done
  · next changeSeq locked taken =>
      obtain ⟨rfl, _⟩ := nextChangeSeq_eq_ok taken
      split
      · exact .done
      · next result written =>
          exact (trail_moreChangeSeqs db workspaceId 1).trans
            (trails changeSeq result.1 result.2 written)

end Locks

section Marks

variable {care : Care} {db : Database}

theorem change_setNode
    {id : Uuid}
    {change : Node → Node}
    (marks : ∀ row, db.nodes.get? id = some row →
      Marks care id row (change row)) :
    Change care db (db.setNode id change) := by
  refine Change.marked
    (fun key row => if byId id key row then change row else row) ?_
  intro key row found
  by_cases same : key = id
  · subst same
    simpa [byId] using marks row found
  · simp only [byId, same, decide_false, Bool.false_eq_true, ↓reduceIte]
    exact
      { workspaceId := rfl
        parentId := rfl
        kind := rfl
        heightBound := rfl
        currentVersionId := rfl
        shown := fun seen => seen
        trashed := fun differs => absurd rfl differs
        seen := fun _ seen => seen
        purged := .inl rfl }

/-- An upload changed within its state is a trail of changes. -/
theorem trail_setUpload
    (id : Uuid)
    (change : Upload → Upload)
    (same : ∀ row, db.uploads.get? id = some row →
      (change row).workspaceId = row.workspaceId ∧
        (change row).nodeId = row.nodeId ∧
        (change row).versionId = row.versionId ∧
        (change row).objectId = row.objectId ∧
        (change row).reservedBytes = row.reservedBytes ∧
        (change row).status.live = row.status.live) :
    Trail care db (db.setUpload id change) := by
  cases found : db.uploads.get? id with
  | none =>
    have still : db.setUpload id change = db := by
      have table : db.uploads.update (byId id) change = db.uploads := by
        refine update_eq_self fun key row there met => ?_
        rw [byId, decide_eq_true_eq] at met
        rw [met, found] at there
        cases there
      rw [Database.setUpload, table]
    rw [still]
    exact .done
  | some row =>
    obtain ⟨workspace, node, version, object, bytes, live⟩ := same row found
    exact .one (.upload id change row found workspace node version object
      bytes live)

/-- Marking nodes trashed is a trail of changes. -/
theorem trail_markTrashed
    (ids : List Uuid)
    (firstSeq : Nat)
    (trashedAt : Option Nat)
    (shown : care.shallow → ∀ id ∈ ids, ∀ row,
      db.nodes.get? id = some row → row.changeSeq ≠ none) :
    Trail care db (markTrashed db ids firstSeq trashedAt) := by
  induction ids generalizing db firstSeq with
  | nil =>
    exact .done
  | cons id rest inductionHypothesis =>
    have first : Change care db
        (db.setNode id fun row =>
          { row with trashedAt := trashedAt, changeSeq := some firstSeq }) :=
      change_setNode fun row found =>
        { workspaceId := rfl
          parentId := rfl
          kind := rfl
          heightBound := rfl
          currentVersionId := rfl
          shown := fun _ => by simp
          trashed := fun _ => by simp
          seen := fun shallow seen =>
            ⟨shown shallow id (by simp) row found, seen.2⟩
          purged := .inl rfl }
    refine (Trail.one first).trans (inductionHypothesis _ ?_)
    intro shallow other member row found
    rw [Database.setNode, get?_updateById] at found
    split at found
    · obtain ⟨_, _, equal⟩ := Option.map_eq_some_iff.mp found
      rw [← equal]
      simp
    · exact shown shallow other (by simp [member]) row found

end Marks

section Purging

variable {care : Care} {db : Database}

/-- A version as a purge read it still stands, unless it was purged already. -/
def Standing (db : Database) (workspaceId : Uuid) (version : PurgedVersion) :
    Prop :=
  version.status ≠ .purged →
    ∃ row, db.versions.get? version.id = some row ∧
      row.status = version.status ∧ row.objectId = version.objectId ∧
      row.workspaceId = workspaceId ∧
      db.sizeOf row.objectId = version.size

theorem uploadOf_eq_some
    {versionId uploadId : Uuid}
    {row : Upload}
    (found : uploadOf db versionId = some (uploadId, row)) :
    db.uploads.get? uploadId = some row ∧ row.versionId = versionId := by
  have member := mem_of_head? found
  obtain ⟨there, names⟩ := mem_select.mp member
  exact ⟨there, by simpa using names⟩

theorem uploadOf_of_found
    {uploadId : Uuid}
    {row : Upload}
    (found : db.uploads.get? uploadId = some row) :
    uploadOf db row.versionId ≠ none := by
  have member : (uploadId, row) ∈
      db.uploads.select fun _ other => other.versionId = row.versionId :=
    mem_select.mpr ⟨found, by simp⟩
  intro absent
  rw [uploadOf, head?_eq_none_iff] at absent
  rw [absent] at member
  cases member

/-- Purging a version is a trail of changes. -/
theorem trail_purgeVersion
    (sound : Sound db)
    {workspaceId : Uuid}
    {version : PurgedVersion}
    (standing : Standing db workspaceId version)
    (taken : version.status = .ready → care.takes version.id) :
    Trail care db (purgeVersion db workspaceId version) := by
  unfold purgeVersion
  cases status : version.status with
  | purged =>
    exact .done
  | ready =>
    obtain ⟨row, found, sameStatus, object, inside, size⟩ :=
      standing (by rw [status]; decide)
    rw [status] at sameStatus
    obtain ⟨objectId, stored, named, present⟩ :=
      sound.versionObject found (by rw [sameStatus]; decide)
    have sized : db.sizeOf row.objectId = some stored.ciphertextSize := by
      simp [Database.sizeOf, named, present]
    have itsSize := size.symm.trans sized
    simp only [itsSize]
    rw [← inside]
    exact .one (.expired version row objectId _ found sameStatus named
      object.symm sized itsSize (taken status))
  | pending =>
    obtain ⟨row, found, sameStatus, _⟩ :=
      standing (by rw [status]; decide)
    rw [status] at sameStatus
    obtain ⟨itsUpload, upload, there, names, live⟩ :=
      sound.pendingUpload found sameStatus
    cases begun : uploadOf db version.id with
    | none =>
      exact absurd (names ▸ begun) (uploadOf_of_found there)
    | some entry =>
      obtain ⟨uploadId, other⟩ := entry
      obtain ⟨otherFound, otherNames⟩ := uploadOf_eq_some begun
      have same : uploadId = itsUpload :=
        sound.uploadOne otherFound there (otherNames.trans names.symm)
      subst same
      rw [there] at otherFound
      obtain rfl := Option.some.inj otherFound
      have release : Trail care db
          (releaseUpload db uploadId { upload with newNode := false }
            .aborted) :=
        .one (.released uploadId upload .aborted there live rfl)
      cases uploadStatus : upload.status with
      | completing => simp only [uploadStatus]; exact .done
      | open_ => simpa only [uploadStatus] using release
      | conflicted => simpa only [uploadStatus] using release
      | completed => rw [uploadStatus] at live; cases live
      | aborted => rw [uploadStatus] at live; cases live

/-- Some versions are purged, and all else about versions and nodes stays. -/
structure Purges (gone : Uuid → Prop) (db after : Database) : Prop where
  kept : ∀ {id row}, after.versions.get? id = some row →
    row.status ≠ .purged → db.versions.get? id = some row
  stays : ∀ {id row}, ¬ gone id → db.versions.get? id = some row →
    row.status ≠ .purged → after.versions.get? id = some row
  sizes : ∀ {id row}, after.versions.get? id = some row →
    row.status ≠ .purged →
      after.sizeOf row.objectId = db.sizeOf row.objectId
  nodes : after.nodes = db.nodes

variable {after : Database} {gone : Uuid → Prop} {above : Option (List Uuid)}
  {workspaceId nodeId changeSeq now : Nat}

theorem purges_of_same
    (versions : after.versions = db.versions)
    (objects : after.objects = db.objects)
    (nodes : after.nodes = db.nodes) :
    Purges gone db after where
  kept := fun found _ => versions ▸ found
  stays := fun _ found _ => versions ▸ found
  sizes := fun _ _ => by rw [Database.sizeOf, Database.sizeOf, objects]
  nodes := nodes

theorem Purges.trans
    {middle after : Database}
    (first : Purges gone db middle)
    (second : Purges gone middle after) :
    Purges gone db after where
  kept := fun found kept => first.kept (second.kept found kept) kept
  stays := fun alive found kept =>
    second.stays alive (first.stays alive found kept) kept
  sizes := fun found kept =>
    (second.sizes found kept).trans
      (first.sizes (second.kept found kept) kept)
  nodes := second.nodes.trans first.nodes

theorem Purges.mono
    {gone more : Uuid → Prop}
    (purges : Purges gone db after)
    (among : ∀ id, gone id → more id) :
    Purges more db after :=
  { purges with
    stays := fun alive found kept =>
      purges.stays (fun isGone => alive (among _ isGone)) found kept }

theorem purges_purgeVersionRow (db : Database) (id : Uuid) :
    Purges (· = id) db (db.purgeVersionRow id) where
  kept := fun {key row} found kept => by
    rw [Database.purgeVersionRow, Database.setVersion, get?_updateById] at found
    split at found
    · obtain ⟨_, _, equal⟩ := Option.map_eq_some_iff.mp found
      exact absurd (by rw [← equal]) kept
    · exact found
  stays := fun {key row} alive found kept => by
    rw [Database.purgeVersionRow, Database.setVersion, get?_updateById,
      if_neg alive]
    exact found
  sizes := fun _ _ => rfl
  nodes := rfl

theorem purges_retireNamed
    (gone : Uuid → Prop)
    (db : Database)
    (objectId : Option Uuid) :
    Purges gone db (db.retireNamed objectId) := by
  cases objectId with
  | none =>
    exact purges_of_same rfl rfl rfl
  | some objectId =>
    exact
      { kept := fun found kept => (retire_version kept).mp found
        stays := fun _ found kept => (retire_version kept).mpr found
        sizes := fun found kept =>
          sizeOf_retire ((retire_version kept).mp found) kept
        nodes := by
          rcases retire_cases db objectId with
            ⟨same, _⟩ | ⟨object, _, _, same⟩
          · rw [Database.retireNamed, same]
          · rw [Database.retireNamed, same]
            rfl }

theorem purges_releaseUpload
    (db : Database)
    (uploadId : Uuid)
    (row : Upload)
    (status : UploadStatus) :
    Purges (· = row.versionId) db
      (releaseUpload db uploadId { row with newNode := false } status) := by
  have paid : Purges (· = row.versionId) db
      (db.adjustStorage row.workspaceId 0 (-row.reservedBytes)) :=
    purges_of_same rfl rfl rfl
  have purged := paid.trans (purges_purgeVersionRow _ row.versionId)
  show Purges _ db (Database.retireNamed _ row.objectId)
  refine Purges.trans ?_ (purges_retireNamed _ _ row.objectId)
  exact purged.trans (purges_of_same rfl rfl rfl)

theorem released_version
    (db : Database)
    (uploadId : Uuid)
    (row : Upload)
    (status : UploadStatus)
    {version : Version}
    (found : (releaseUpload db uploadId { row with newNode := false }
      status).versions.get? row.versionId = some version) :
    version.status = .purged := by
  by_contra kept
  have before := (purges_retireNamed (fun _ => True)
    (((db.adjustStorage row.workspaceId 0
      (-row.reservedBytes)).purgeVersionRow row.versionId).setUpload uploadId
        fun upload => { upload with status := status, reservedBytes := 0 })
    row.objectId).kept found kept
  simp only [Database.setUpload, Database.purgeVersionRow,
    Database.setVersion, get?_updateById, ↓reduceIte] at before
  obtain ⟨_, _, equal⟩ := Option.map_eq_some_iff.mp before
  exact kept (by rw [← equal])

theorem purges_purgeReady
    (db : Database)
    (workspaceId : Uuid)
    (version : PurgedVersion) :
    Purges (· = version.id) db (purgeReady db workspaceId version) := by
  rw [purgeReady]
  refine Purges.trans ?_ (purges_retireNamed _ _ version.objectId)
  exact (purges_purgeVersionRow db version.id).trans
    (purges_of_same rfl rfl rfl)

/-- Purging one version purges that one alone. -/
theorem purges_purgeVersion
    (db : Database)
    (workspaceId : Uuid)
    (version : PurgedVersion) :
    Purges (· = version.id) db (purgeVersion db workspaceId version) := by
  have same : Purges (· = version.id) db db := purges_of_same rfl rfl rfl
  have uncounted : Purges (· = version.id) db (purgeUncounted db version) :=
    (purges_purgeVersionRow db version.id).trans (purges_retireNamed _ _ _)
  unfold purgeVersion
  split
  · exact same
  · split
    · exact purges_purgeReady db workspaceId version
    · exact uncounted
  · split
    · next uploadId row begun =>
        obtain ⟨_, names⟩ := uploadOf_eq_some begun
        have released : Purges (· = version.id) db
            (releaseUpload db uploadId { row with newNode := false }
              .aborted) :=
          names ▸ purges_releaseUpload db uploadId row .aborted
        split
        · exact same
        · exact released
        · exact released
        · exact uncounted
        · exact uncounted
    · exact uncounted

theorem Standing.purges
    {workspaceId : Uuid}
    {version : PurgedVersion}
    (standing : Standing db workspaceId version)
    (purges : Purges gone db after)
    (alive : ¬ gone version.id) :
    Standing after workspaceId version := by
  intro kept
  obtain ⟨row, found, status, object, inside, size⟩ := standing kept
  have unpurged : row.status ≠ .purged := status ▸ kept
  have there := purges.stays alive found unpurged
  exact ⟨row, there, status, object, inside,
    (purges.sizes there unpurged).trans size⟩

/-- Purging versions in turn is a trail of changes. -/
theorem trail_purgeVersions
    (sound : Sound db)
    {workspaceId : Uuid}
    {versions : List PurgedVersion}
    (once : (versions.map PurgedVersion.id).Nodup)
    (standing : ∀ version ∈ versions, Standing db workspaceId version)
    (taken : ∀ version ∈ versions, version.status = .ready →
      care.takes version.id) :
    Trail care db
      (versions.foldl
        (fun db version => purgeVersion db workspaceId version) db) := by
  induction versions generalizing db with
  | nil =>
    exact .done
  | cons version rest inductionHypothesis =>
    obtain ⟨fresh, restOnce⟩ := nodup_cons.mp once
    have first := trail_purgeVersion sound
      (standing version (by simp)) (taken version (by simp))
    refine first.trans (inductionHypothesis (sound.trail first) restOnce
      ?_ ?_)
    · intro other member
      refine (standing other (by simp [member])).purges
        (purges_purgeVersion db workspaceId version) ?_
      intro same
      exact fresh (same ▸ mem_map_of_mem member)
    · exact fun other member => taken other (by simp [member])

theorem purges_purgeVersions
    (workspaceId : Uuid)
    (versions : List PurgedVersion)
    (db : Database) :
    Purges (· ∈ versions.map PurgedVersion.id) db
      (versions.foldl
        (fun db version => purgeVersion db workspaceId version) db) := by
  induction versions generalizing db with
  | nil =>
    exact purges_of_same rfl rfl rfl
  | cons version rest inductionHypothesis =>
    have first := (purges_purgeVersion db workspaceId version).mono
      fun id same => show id ∈ (version :: rest).map PurgedVersion.id by
        simp [same]
    refine first.trans ((inductionHypothesis _).mono fun id member => ?_)
    exact mem_cons_of_mem _ member

theorem mem_versionsWhere
    {meets : Uuid → Version → Bool}
    {version : PurgedVersion} :
    version ∈ versionsWhere db meets ↔
      ∃ row, db.versions.get? version.id = some row ∧
        meets version.id row = true ∧
        version = purgedVersion db version.id row := by
  simp only [versionsWhere, mem_map, Prod.exists, mem_select]
  constructor
  · rintro ⟨id, row, ⟨found, met⟩, rfl⟩
    exact ⟨row, found, met, rfl⟩
  · rintro ⟨row, found, met, equal⟩
    exact ⟨version.id, row, ⟨found, met⟩, equal.symm⟩

theorem nodup_versionsWhere
    (db : Database)
    (meets : Uuid → Version → Bool) :
    ((versionsWhere db meets).map PurgedVersion.id).Nodup := by
  simp only [versionsWhere, map_map, Function.comp_def]
  exact db.versions.nodup.sublist (filter_sublist.map Prod.fst)

theorem standing_of_read
    {workspaceId id : Uuid}
    {row : Version}
    (found : db.versions.get? id = some row)
    (inside : row.workspaceId = workspaceId) :
    Standing db workspaceId (purgedVersion db id row) :=
  fun _ => ⟨row, found, rfl, rfl, inside, rfl⟩

/-- Purging a node purges its versions and leaves its tombstone. -/
theorem purgeOne_eq_ok
    (done : purgeOne db workspaceId nodeId changeSeq above now = .ok after) :
    after = db ∨
      ∃ node ids, db.nodes.get? nodeId = some node ∧
        node.workspaceId = workspaceId ∧ node.purgedAt = none ∧
        after = revokeShares
          (((versionsWhere db fun _ row => row.nodeId = nodeId).foldl
            (fun db version => purgeVersion db workspaceId version)
              db).setNode nodeId (tombstone changeSeq now ids)) nodeId now := by
  unfold purgeOne at done
  cases found : db.nodes.get? nodeId with
  | none =>
    rw [found] at done
    exact .inl (Except.ok.inj done).symm
  | some node =>
    rw [found] at done
    simp only at done
    split at done
    · next here =>
        split at done
        · cases done
        · exact .inr ⟨node, _, rfl, here.1, here.2,
            (Except.ok.inj done).symm⟩
    · exact .inl (Except.ok.inj done).symm

/-- Purging one node is a trail of changes. -/
theorem trail_purgeOne
    (sound : Sound db)
    (done : purgeOne db workspaceId nodeId changeSeq above now = .ok after)
    (taken : ∀ id row, db.versions.get? id = some row →
      row.nodeId = nodeId → row.status = .ready → care.takes id)
    (buried : care.buries nodeId) :
    Trail care db after := by
  rcases purgeOne_eq_ok done with rfl | ⟨node, ids, found, inside, _, rfl⟩
  · exact .done
  · have emptied : Trail care db
        ((versionsWhere db fun _ row => row.nodeId = nodeId).foldl
          (fun db version => purgeVersion db workspaceId version) db) :=
      trail_purgeVersions sound
        (nodup_versionsWhere db fun _ row => row.nodeId = nodeId) ?_ ?_
    · refine emptied.trans ((Trail.one (change_setNode ?_)).trans
        (.one (.beside _ _ _ _)))
      intro row _
      exact
        { workspaceId := rfl
          parentId := rfl
          kind := rfl
          heightBound := rfl
          currentVersionId := rfl
          shown := fun _ => by simp [tombstone]
          trashed := fun _ => by simp [tombstone]
          seen := fun _ seen => absurd seen.2 (by simp [tombstone])
          purged := .inr buried }
    · intro version member
      obtain ⟨row, there, met, equal⟩ := mem_versionsWhere.mp member
      rw [equal]
      obtain ⟨itsNode, itsFound, same⟩ := sound.versionNode there
      rw [decide_eq_true_eq] at met
      rw [met, found] at itsFound
      obtain rfl := Option.some.inj itsFound
      exact standing_of_read there (same.symm.trans inside)
    · intro version member ready
      obtain ⟨row, there, met, equal⟩ := mem_versionsWhere.mp member
      rw [equal] at ready
      exact taken version.id row there (by simpa using met) ready

theorem version_of_purgeOne
    (done : purgeOne db workspaceId nodeId changeSeq above now = .ok after)
    {id : Uuid}
    {row : Version}
    (found : after.versions.get? id = some row)
    (kept : row.status ≠ .purged) :
    db.versions.get? id = some row := by
  rcases purgeOne_eq_ok done with rfl | ⟨node, ids, _, _, _, rfl⟩
  · exact found
  · exact (purges_purgeVersions workspaceId _ db).kept found kept

end Purging

section Releasing

variable {care : Care} {db : Database}

/-- Deleting versions that all stay changes nothing. -/
theorem deleteVersions_eq_self
    {gone : Uuid → Version → Bool}
    (stays : ∀ id row, db.versions.get? id = some row →
      gone id row = false) :
    db.deleteVersions gone = db := by
  have none_ : db.versions.meetsAt gone = fun _ => false := by
    funext key
    unfold OrderedMap.meetsAt
    split
    · next row found => exact stays key row found
    · rfl
  have versions : db.versions.retain (fun id row => !gone id row) =
      db.versions :=
    retain_eq_self fun id row found => by simp [stays id row found]
  have uploads : db.uploads.retain (fun _ _ => !false) = db.uploads :=
    retain_eq_self fun _ _ _ => rfl
  have nodes : db.nodes.update
      (fun _ row => (row.currentVersionId.map fun _ => false).getD false)
      (fun row => { row with currentVersionId := none }) = db.nodes := by
    refine update_eq_self fun key row _ met => ?_
    cases current : row.currentVersionId with
    | none => rw [current] at met; cases met
    | some _ => rw [current] at met; cases met
  simp only [Database.deleteVersions, none_]
  rw [versions, uploads, nodes]

variable {nodeId : Uuid}

theorem meetsAt_byId
    {nodes : OrderedMap Uuid Node}
    (there : nodes.get? nodeId ≠ none)
    (key : Uuid) :
    nodes.meetsAt (byId nodeId) key = decide (key = nodeId) := by
  unfold OrderedMap.meetsAt
  split
  · rfl
  · next absent =>
      have differs : key ≠ nodeId := fun same => there (same ▸ absent)
      simp [differs]

theorem dropNode_eq
    (there : db.nodes.get? nodeId ≠ none) :
    dropNode db nodeId = db.deleteNodes (byId nodeId) := by
  have still : (db.deleteVersions fun _ row =>
      decide (row.nodeId = nodeId)).nodes.get? nodeId ≠ none := by
    simpa [Database.deleteVersions, get?_update] using there
  have again : (db.deleteVersions fun _ row =>
      decide (row.nodeId = nodeId)).deleteVersions
        (fun _ row => decide (row.nodeId = nodeId)) =
      db.deleteVersions fun _ row => decide (row.nodeId = nodeId) := by
    refine deleteVersions_eq_self fun id row found => ?_
    simpa using (get?_retain_eq_some.mp found).2
  simp only [dropNode, Database.deleteNodes, meetsAt_byId there,
    meetsAt_byId still, again]

/-- Dropping a file that was never shown is one of the changes. -/
theorem change_dropNode
    (sound : Sound db)
    {node : Node}
    (found : db.nodes.get? nodeId = some node)
    (file : node.kind = .file)
    (careful : care.spares → Spent db nodeId)
    (hidden : care.hides → ¬ node.seen) :
    Change care db (dropNode db nodeId) := by
  have only : ∀ id (row : Node), byId nodeId id row = true → id = nodeId :=
    fun id row met => by simpa [byId] using met
  rw [dropNode_eq (by rw [found]; simp)]
  refine .deleted (byId nodeId) ?_ ?_ ?_
  · intro id row there met child childRow childFound named
    obtain rfl := only id row met
    obtain ⟨parent, parentFound, folder, _⟩ :=
      sound.nodeParent childFound named
    rw [found] at parentFound
    obtain rfl := Option.some.inj parentFound
    rw [file] at folder
    cases folder
  · intro spares id row there met
    obtain rfl := only id row met
    exact careful spares
  · intro hides id row there met
    obtain rfl := only id row met
    rw [found] at there
    obtain rfl := Option.some.inj there
    exact hidden hides

/-- Whether every version on an upload's node but its own is purged. -/
def AloneOn (db : Database) (row : Upload) : Prop :=
  ∀ id version, db.versions.get? id = some version →
    version.nodeId = row.nodeId → id ≠ row.versionId →
      version.status = .purged

/-- Releasing an upload is a trail of changes. -/
theorem trail_releaseUpload
    (sound : Sound db)
    {uploadId : Uuid}
    {row : Upload}
    {status : UploadStatus}
    (found : db.uploads.get? uploadId = some row)
    (live : row.status.live = true)
    (dead : status.live = false)
    (alone : care.spares → row.newNode = true → AloneOn db row)
    (hidden : care.hides → row.newNode = true → ∀ node,
      db.nodes.get? row.nodeId = some node → ¬ node.seen) :
    Trail care db (releaseUpload db uploadId row status) := by
  have released : Change care db
      (releaseUpload db uploadId { row with newNode := false } status) :=
    .released uploadId row status found live dead
  have purges := purges_releaseUpload db uploadId row status
  cases isNew : row.newNode with
  | false =>
    have same : row = { row with newNode := false } := by rw [← isNew]
    rw [same]
    exact .one released
  | true =>
    have same : releaseUpload db uploadId row status =
        dropNode
          (releaseUpload db uploadId { row with newNode := false } status)
          row.nodeId := by
      simp [releaseUpload, isNew]
    obtain ⟨_, node, nodeFound, _, file⟩ := sound.uploadRows found
    rw [same]
    refine (Trail.one released).more
      (change_dropNode (sound.change released) ?_ file ?_ ?_)
    · rw [purges.nodes]
      exact nodeFound
    · intro spares id version there onNode
      by_contra kept
      have before := purges.kept there kept
      by_cases own : id = row.versionId
      · subst own
        exact kept (released_version db uploadId row status there)
      · exact kept (alone spares isNew id version before onNode own)
    · exact fun hides => hidden hides isNew node nodeFound

end Releasing

section Publishing

variable {care : Care} {db : Database}

/-- An upload as publishing leaves it. -/
def completedUpload (upload : Upload) : Upload :=
  { upload with status := .completed, reservedBytes := 0 }

/-- Retiring an object and completing an upload commute. -/
theorem retireNamed_setUpload
    (db : Database)
    (objectId : Option Uuid)
    (uploadId : Uuid) :
    (db.setUpload uploadId completedUpload).retireNamed objectId =
      (db.retireNamed objectId).setUpload uploadId completedUpload := by
  cases objectId with
  | none => rfl
  | some objectId =>
    have tables : (db.uploads.update (byId uploadId) completedUpload).update
          (fun _ row => decide (row.objectId = some objectId))
          (fun row => { row with objectId := none }) =
        (db.uploads.update
          (fun _ row => decide (row.objectId = some objectId))
          fun row => { row with objectId := none }).update
            (byId uploadId) completedUpload :=
      update_comm db.uploads (fun _ _ => rfl) (fun _ _ => rfl)
        fun _ => rfl
    simp only [Database.retireNamed, Database.retireObjectIfUnreferenced,
      Database.setUpload]
    split
    · next referenced =>
        exact if_pos referenced
    · next unreferenced =>
        refine (if_neg unreferenced).trans ?_
        cases db.objects.get? objectId with
        | none => rfl
        | some object =>
          simp only [tables]
          rfl

theorem purgeReady_setUpload
    (db : Database)
    (workspaceId : Uuid)
    (version : PurgedVersion)
    (uploadId : Uuid) :
    purgeReady (db.setUpload uploadId completedUpload) workspaceId version =
      (purgeReady db workspaceId version).setUpload uploadId
        completedUpload := by
  rw [purgeReady, purgeReady, ← retireNamed_setUpload]
  rfl

/-- Superseding versions and completing an upload commute. -/
theorem supersede_setUpload
    (db : Database)
    (workspaceId nodeId displaced published now uploadId : Nat) :
    supersede (db.setUpload uploadId completedUpload) workspaceId nodeId
        displaced published now =
      (supersede db workspaceId nodeId displaced published now).setUpload
        uploadId completedUpload := by
  have folds : ∀ (versions : List PurgedVersion) (db : Database),
      versions.foldl (fun db version => purgeReady db workspaceId version)
          (db.setUpload uploadId completedUpload) =
        (versions.foldl
          (fun db version => purgeReady db workspaceId version)
          db).setUpload uploadId completedUpload := by
    intro versions
    induction versions with
    | nil => exact fun _ => rfl
    | cons version rest inductionHypothesis =>
      intro db
      rw [foldl_cons, purgeReady_setUpload, inductionHypothesis,
        foldl_cons]
  have older : olderVersions (db.setUpload uploadId completedUpload) nodeId
      displaced published = olderVersions db nodeId displaced published :=
    rfl
  rw [supersede, older, folds]
  rfl

theorem raiseHeightBounds_nodes
    {first second : Database}
    (same : first.nodes = second.nodes)
    (path : List Ancestor)
    (leafHeight : Nat) :
    (raiseHeightBounds first path leafHeight).nodes =
      (raiseHeightBounds second path leafHeight).nodes := by
  induction path generalizing first second with
  | nil =>
    exact same
  | cons ancestor below inductionHypothesis =>
    refine inductionHypothesis ?_
    rw [raiseAt, raiseAt, Database.setNode, Database.setNode, same]

theorem mem_olderVersions
    {nodeId displaced published : Uuid}
    {version : PurgedVersion}
    (member : version ∈ olderVersions db nodeId displaced published) :
    ∃ row, db.versions.get? version.id = some row ∧
      row.nodeId = nodeId ∧ row.status = .ready ∧
      version.id ≠ displaced ∧ version.id ≠ published ∧
      version = purgedVersion db version.id row := by
  rw [olderVersions, mem_filter] at member
  obtain ⟨row, found, met, equal⟩ := mem_versionsWhere.mp member.1
  simp only [Bool.and_eq_true, decide_eq_true_eq, ne_eq, decide_not,
    Bool.not_eq_true', decide_eq_false_iff_not] at met
  obtain ⟨⟨⟨node, ready⟩, notDisplaced⟩, notPublished⟩ := met
  exact ⟨row, found, node, ready, notDisplaced, notPublished, equal⟩

/-- Superseding the displaced versions is a trail of changes. -/
theorem trail_supersede
    (sound : Sound db)
    {workspaceId nodeId displaced published now : Nat}
    (inside : ∀ id row, db.versions.get? id = some row →
      row.nodeId = nodeId → row.workspaceId = workspaceId)
    (taken : ∀ id row, db.versions.get? id = some row →
      row.nodeId = nodeId → row.status = .ready → id ≠ displaced →
        id ≠ published → care.takes id) :
    Trail care db
      (supersede db workspaceId nodeId displaced published now) := by
  have purged : ∀ version ∈ olderVersions db nodeId displaced published,
      ∀ db, purgeVersion db workspaceId version =
        purgeReady db workspaceId version := by
    intro version member other
    obtain ⟨row, found, _, ready, _, _, equal⟩ := mem_olderVersions member
    obtain ⟨objectId, stored, named, present⟩ :=
      sound.versionObject found (by rw [ready]; decide)
    have status : version.status = .ready := by rw [equal]; exact ready
    have size : version.size = some stored.ciphertextSize := by
      rw [equal]
      simp [purgedVersion, Database.sizeOf, named, present]
    simp [purgeVersion, status, size]
  have same : ∀ (versions : List PurgedVersion) (db : Database),
      (∀ version ∈ versions, ∀ db, purgeVersion db workspaceId version =
        purgeReady db workspaceId version) →
      versions.foldl (fun db version => purgeReady db workspaceId version)
          db =
        versions.foldl (fun db version => purgeVersion db workspaceId version)
          db := by
    intro versions
    induction versions with
    | nil => exact fun _ _ => rfl
    | cons version rest inductionHypothesis =>
      intro db agree
      rw [foldl_cons, foldl_cons, agree version (by simp)]
      exact inductionHypothesis _ fun other member =>
        agree other (by simp [member])
  rw [supersede, same _ db purged]
  refine (trail_purgeVersions sound ?_ ?_ ?_).more (.superseded displaced _)
  · exact (nodup_versionsWhere db _).sublist
      (filter_sublist.map PurgedVersion.id)
  · intro version member
    obtain ⟨row, found, node, _, _, _, equal⟩ := mem_olderVersions member
    rw [equal]
    exact standing_of_read found (inside version.id row found node)
  · intro version member _
    obtain ⟨row, found, node, ready, notDisplaced, notPublished, _⟩ :=
      mem_olderVersions member
    exact taken version.id row found node ready notDisplaced notPublished

theorem raiseHeightBounds_setUpload
    (db : Database)
    (path : List Ancestor)
    (leafHeight : Nat)
    (uploadId : Uuid) :
    raiseHeightBounds (db.setUpload uploadId completedUpload) path
        leafHeight =
      (raiseHeightBounds db path leafHeight).setUpload uploadId
        completedUpload := by
  have same := raiseHeightBounds_nodes
    (show (db.setUpload uploadId completedUpload).nodes = db.nodes from rfl)
    path leafHeight
  rw [raiseHeightBounds_rest, same, raiseHeightBounds_rest db]
  rfl

/-- What a displaced version leaves, if there is one. -/
def clearedOf
    (db : Database)
    (row : Upload)
    (displaced : Option Uuid)
    (now : Nat) : Database :=
  match displaced with
  | none => db
  | some displaced =>
    supersede db row.workspaceId row.nodeId displaced row.versionId now

/-- The ancestors a publish raises. -/
def raisedPath (row : Upload) (ancestors : List Ancestor) : List Ancestor :=
  if row.newNode then ancestors else []

variable {row : Upload} {uploadId : Uuid} {displaced : Option Uuid}

/-- Publishing readies the version, clears the old and raises bounds. -/
theorem publishUpload_eq
    {objectId : Uuid}
    (named : row.objectId = some objectId)
    (size : Nat)
    (ancestors : List Ancestor)
    (displaced : Option Uuid)
    (changeSeq now : Nat) :
    (publishUpload db uploadId row size ancestors displaced changeSeq
        now).2 =
      raiseHeightBounds
        ((clearedOf (db.readied uploadId row objectId size) row displaced
          now).setNode row.nodeId fun node =>
            { node with
              currentVersionId := some row.versionId
              changeSeq := some changeSeq })
        (raisedPath row ancestors) 0 := by
  have readied : db.readied uploadId row objectId size =
      (((db.adjustStorage row.workspaceId size
        (-row.reservedBytes)).setObject objectId fun object =>
          { object with status := .ready }).setVersion row.versionId
            fun version => { version with status := .ready }).setUpload
              uploadId completedUpload :=
    rfl
  have cleared : clearedOf (db.readied uploadId row objectId size) row
      displaced now =
      (clearedOf
        (((db.adjustStorage row.workspaceId size
          (-row.reservedBytes)).setObject objectId fun object =>
            { object with status := .ready }).setVersion row.versionId
              fun version => { version with status := .ready })
        row displaced now).setUpload uploadId completedUpload := by
    rw [readied]
    cases displaced with
    | none => rfl
    | some displaced => exact supersede_setUpload _ _ _ _ _ _ _
  rw [cleared]
  unfold raisedPath
  cases isNew : row.newNode with
  | false =>
    simp only [publishUpload, named, isNew, Bool.false_eq_true, ↓reduceIte]
    cases displaced <;> rfl
  | true =>
    have shown : ∀ (db : Database) (change : Node → Node),
        (db.setUpload uploadId completedUpload).setNode row.nodeId change =
          (db.setNode row.nodeId change).setUpload uploadId
            completedUpload :=
      fun _ _ => rfl
    simp only [publishUpload, named, isNew, ↓reduceIte]
    rw [shown, raiseHeightBounds_setUpload]
    cases displaced <;> rfl

theorem nodes_clearedOf
    (db : Database)
    (row : Upload)
    (displaced : Option Uuid)
    (now : Nat) :
    (clearedOf db row displaced now).nodes = db.nodes := by
  cases displaced with
  | none => rfl
  | some displaced =>
    have folds : ∀ (versions : List PurgedVersion) (db : Database),
        (versions.foldl
          (fun db version => purgeReady db row.workspaceId version)
          db).nodes = db.nodes := by
      intro versions
      induction versions with
      | nil => exact fun _ => rfl
      | cons version rest inductionHypothesis =>
        intro db
        rw [foldl_cons, inductionHypothesis]
        exact (purges_purgeReady db row.workspaceId version).nodes
    exact folds _ db

/-- Clearing what was displaced is a trail of changes. -/
theorem trail_clearedOf
    (sound : Sound db)
    {objectId size : Nat}
    (now : Nat)
    (found : db.uploads.get? uploadId = some row)
    (live : row.status.live = true)
    (named : row.objectId = some objectId)
    (sized : db.sizeOf row.objectId = some size)
    (taken : ∀ old, displaced = some old → ∀ id version,
      db.versions.get? id = some version → version.nodeId = row.nodeId →
        version.status = .ready → id ≠ old → care.takes id) :
    Trail care (db.readied uploadId row objectId size)
      (clearedOf (db.readied uploadId row objectId size) row displaced
        now) := by
  have readied : Change care db (db.readied uploadId row objectId size) :=
    .readied uploadId row objectId size found live named sized
  have readySound := sound.change readied
  have inside : ∀ id version,
      (db.readied uploadId row objectId size).versions.get? id =
        some version →
      version.nodeId = row.nodeId →
        version.workspaceId = row.workspaceId := by
    intro id version there onNode
    obtain ⟨itsNode, itsFound, same⟩ := readySound.versionNode there
    obtain ⟨_, begun, begunFound, begunInside, _⟩ := sound.uploadRows found
    have nodeFound : db.nodes.get? version.nodeId = some itsNode := itsFound
    rw [onNode, begunFound] at nodeFound
    obtain rfl := Option.some.inj nodeFound
    exact same.symm.trans begunInside
  cases displaced with
  | none => exact .done
  | some old =>
    refine trail_supersede readySound inside ?_
    intro id version there onNode ready notOld notPublished
    have before : db.versions.get? id = some version := by
      simpa [Database.readied, Database.setUpload, Database.setVersion,
        Database.setObject, Database.adjustStorage, get?_updateById,
        notPublished] using there
    exact taken old rfl id version before onNode ready notOld

/-- Where an upload is published. -/
structure Publishes
    (care : Care)
    (db : Database)
    (row : Upload)
    (ancestors : List Ancestor)
    (displaced : Option Uuid)
    (node : Node) : Prop where
  found : db.nodes.get? row.nodeId = some node
  place : row.newNode = true →
    (ancestors = [] ∧ node.parentId = none) ∨
      ∃ parentId above, node.parentId = some parentId ∧
        nearestFirst ancestors = parentId :: above ∧
          Lineage db.nodes parentId above
  within : care.shallow → row.newNode = true →
    ancestors.length ≤ MAX_DEPTH
  seen : care.shallow → row.newNode = false → node.seen
  taken : ∀ old, displaced = some old → ∀ id version,
    db.versions.get? id = some version → version.nodeId = row.nodeId →
      version.status = .ready → id ≠ old → care.takes id

/-- Publishing an upload is a trail of changes. -/
theorem trail_publishUpload
    (sound : Sound db)
    {size : Nat}
    {ancestors : List Ancestor}
    {node : Node}
    (changeSeq now : Nat)
    (found : db.uploads.get? uploadId = some row)
    (live : row.status.live = true)
    (sized : db.sizeOf row.objectId = some size)
    (publishes : Publishes care db row ancestors displaced node) :
    Trail care db
      (publishUpload db uploadId row size ancestors displaced changeSeq
        now).2 := by
  cases named : row.objectId with
  | none =>
    rw [named] at sized
    cases sized
  | some objectId =>
    have readied : Change care db (db.readied uploadId row objectId size) :=
      .readied uploadId row objectId size found live named sized
    have cleared : Trail care (db.readied uploadId row objectId size)
        (clearedOf (db.readied uploadId row objectId size) row displaced
          now) :=
      trail_clearedOf sound now found live named sized publishes.taken
    have nodes : (clearedOf (db.readied uploadId row objectId size) row
        displaced now).nodes = db.nodes :=
      nodes_clearedOf _ _ _ _
    rw [publishUpload_eq named]
    refine ((Trail.one readied).trans cleared).more
      (.shown row.nodeId node row.versionId changeSeq _ ?_ ?_ ?_)
    · rw [nodes]
      exact publishes.found
    · rw [nodes]
      cases isNew : row.newNode with
      | false => exact .inl (by simp [raisedPath, isNew])
      | true =>
        rcases publishes.place isNew with ⟨empty, _⟩ | above
        · exact .inl (by simp [raisedPath, isNew, empty])
        · exact .inr (by simpa [raisedPath, isNew] using above)
    · intro shallow
      cases isNew : row.newNode with
      | false =>
        exact ⟨by simp [raisedPath, isNew],
          fun _ => .inl (publishes.seen shallow isNew)⟩
      | true =>
        refine ⟨by simpa [raisedPath, isNew] using
          publishes.within shallow isNew, ?_⟩
        intro empty
        rcases publishes.place isNew with ⟨_, isRoot⟩ |
          ⟨parentId, above, _, path, _⟩
        · exact .inr isRoot
        · have none_ : ancestors = [] := by
            simpa [raisedPath, isNew] using empty
          rw [none_] at path
          cases path

/-- Publishing changes the status of its own version alone. -/
theorem version_of_publish
    {size : Nat}
    {ancestors : List Ancestor}
    {changeSeq now id : Nat}
    {after : Version}
    (sized : db.sizeOf row.objectId = some size)
    (found : (publishUpload db uploadId row size ancestors displaced
      changeSeq now).2.versions.get? id = some after)
    (kept : after.status ≠ .purged) :
    ∃ before, db.versions.get? id = some before ∧
      before.nodeId = after.nodeId ∧
      (id ≠ row.versionId → before.status = after.status) := by
  cases named : row.objectId with
  | none =>
    rw [named] at sized
    cases sized
  | some objectId =>
    rw [publishUpload_eq named, raiseHeightBounds_rest] at found
    have there : (clearedOf (db.readied uploadId row objectId size) row
        displaced now).versions.get? id = some after :=
      found
    have same : ∀ version,
        (db.readied uploadId row objectId size).versions.get? id =
          some version →
        ∃ before, db.versions.get? id = some before ∧
          before.nodeId = version.nodeId ∧
          (id ≠ row.versionId → before.status = version.status) := by
      intro version present
      have table : (db.readied uploadId row objectId size).versions =
          db.versions.update (byId row.versionId)
            fun version => { version with status := .ready } :=
        rfl
      rw [table, get?_updateById] at present
      split at present
      · next own =>
          obtain ⟨before, earlier, equal⟩ :=
            Option.map_eq_some_iff.mp present
          exact ⟨before, earlier, by rw [← equal], fun other =>
            absurd own other⟩
      · exact ⟨version, present, rfl, fun _ => rfl⟩
    cases displaced with
    | none =>
      exact same after there
    | some old =>
      have folds : ∀ (versions : List PurgedVersion) (db : Database),
          Purges (fun _ => True) db
            (versions.foldl
              (fun db version => purgeReady db row.workspaceId version)
              db) := by
        intro versions
        induction versions with
        | nil => exact fun _ => purges_of_same rfl rfl rfl
        | cons version rest inductionHypothesis =>
          intro db
          exact ((purges_purgeReady db row.workspaceId version).mono
            fun _ _ => trivial).trans (inductionHypothesis _)
      simp only [clearedOf, supersede, Database.setVersion,
        get?_updateById] at there
      split at there
      · obtain ⟨earlier, present, equal⟩ :=
          Option.map_eq_some_iff.mp there
        have status : earlier.status = after.status := by rw [← equal]
        obtain ⟨before, found, node, sameStatus⟩ :=
          same earlier ((folds _ _).kept present (status ▸ kept))
        exact ⟨before, found, by rw [node, ← equal],
          fun other => (sameStatus other).trans status⟩
      · exact same after ((folds _ _).kept there kept)

end Publishing

end Drive

end HushOS
