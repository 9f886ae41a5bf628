import HushOS.Drive.Changes

namespace HushOS

open Toolkit OrderedMap

namespace Drive

/-!
# Sound tables stay sound

One lemma a change.  Most changes touch one table, and say of each row they
touch that it names what it named.
-/

section Deleting

variable {db : Database}

variable {gone : Uuid → Node → Bool} {id : Uuid}

theorem node_of_deleted
    {after : Node}
    (found : (db.deleteNodes gone).nodes.get? id = some after) :
    ∃ row, db.nodes.get? id = some row ∧ gone id row = false ∧
      (after = row ∨ after = { row with currentVersionId := none }) := by
  simp only [Database.deleteNodes, get?_retain_eq_some,
    Database.deleteVersions, get?_update] at found
  obtain ⟨kept, stays⟩ := found
  obtain ⟨row, present, equal⟩ := Option.map_eq_some_iff.mp kept
  refine ⟨row, present, ?_, ?_⟩
  · rw [← meetsAt_of_found present gone]
    simpa using stays
  · rw [← equal]
    split
    · exact .inr rfl
    · exact .inl rfl

theorem deleted_of_node
    {row : Node}
    (found : db.nodes.get? id = some row)
    (stays : gone id row = false) :
    ∃ after, (db.deleteNodes gone).nodes.get? id = some after ∧
      (after = row ∨ after = { row with currentVersionId := none }) := by
  simp only [Database.deleteNodes, get?_retain_eq_some,
    Database.deleteVersions, get?_update, found,
    meetsAt_of_found found gone, stays, Option.map_some]
  refine ⟨_, ⟨rfl, rfl⟩, ?_⟩
  split
  · exact .inr rfl
  · exact .inl rfl

theorem version_of_deleted
    {row : Version} :
    (db.deleteNodes gone).versions.get? id = some row ↔
      db.versions.get? id = some row ∧
        db.nodes.meetsAt gone row.nodeId = false := by
  simp only [Database.deleteNodes, Database.deleteVersions,
    get?_retain_eq_some, Bool.not_eq_true']

theorem upload_of_deleted
    {row : Upload} :
    (db.deleteNodes gone).uploads.get? id = some row ↔
      db.uploads.get? id = some row ∧
        (∀ version, db.versions.get? row.versionId = some version →
          db.nodes.meetsAt gone version.nodeId = false) ∧
        db.nodes.meetsAt gone row.nodeId = false := by
  simp only [Database.deleteNodes, Database.deleteVersions,
    get?_retain_eq_some, Bool.not_eq_true', and_assoc]
  refine and_congr_right fun _ => and_congr_left fun _ => ?_
  constructor
  · intro stays version found
    rw [meetsAt_of_found found] at stays
    exact stays
  · intro stays
    cases found : db.versions.get? row.versionId with
    | none => simp [OrderedMap.meetsAt, found]
    | some version =>
      rw [meetsAt_of_found found]
      exact stays version found

end Deleting

namespace Sound

variable {db : Database}

theorem workspace
    (sound : Sound db)
    (id : Uuid)
    (change : Workspace → Workspace) :
    Sound (db.setWorkspace id change) :=
  { sound with
    workspaceStorage := fun there => by
      rw [Database.setWorkspace, has_update] at there
      exact sound.workspaceStorage there
    nodeWorkspace := fun found => by
      simpa [Database.setWorkspace, has_update] using
        sound.nodeWorkspace found }

theorem opened
    (sound : Sound db)
    (id : Uuid)
    (workspace : Workspace)
    (storage : Storage) :
    Sound
      { db with
        workspaces := db.workspaces.set id workspace
        storage := db.storage.set id storage } :=
  { sound with
    workspaceStorage := fun there => by
      simp only [has_set, Bool.or_eq_true, decide_eq_true_eq] at there ⊢
      exact there.imp (fun same => same) sound.workspaceStorage
    nodeWorkspace := fun found => by
      have standing := sound.nodeWorkspace found
      simp [has_set, standing] }

theorem adjustStorage
    (sound : Sound db)
    (id : Uuid)
    (used reserved : Int) :
    Sound (db.adjustStorage id used reserved) :=
  { sound with
    workspaceStorage := fun there => by
      rw [Database.adjustStorage, has_update]
      exact sound.workspaceStorage there
    nodeWorkspace := fun found => by
      simpa [Database.adjustStorage, has_update] using
        sound.nodeWorkspace found }

theorem object
    (sound : Sound db)
    (id : Uuid)
    (change : StoredObject → StoredObject) :
    Sound (db.setObject id change) :=
  { sound with
    versionObject := fun found kept => by
      obtain ⟨objectId, object, named, present⟩ :=
        sound.versionObject found kept
      by_cases same : objectId = id
      · subst same
        refine ⟨objectId, change object, named, ?_⟩
        simp [Database.setObject, get?_updateById, present]
      · refine ⟨objectId, object, named, ?_⟩
        simp [Database.setObject, get?_updateById, same, present] }

/-- Rows changed with their place kept leave the database sound. -/
theorem nodes
    (sound : Sound db)
    (change : Uuid → Node → Node)
    (sameWorkspace : ∀ id row, db.nodes.get? id = some row →
      (change id row).workspaceId = row.workspaceId)
    (sameKind : ∀ id row, db.nodes.get? id = some row →
      (change id row).kind = row.kind)
    (parent : ∀ id row parentId, db.nodes.get? id = some row →
      (change id row).parentId = some parentId →
        ∃ above, db.nodes.get? parentId = some above ∧
          above.kind = .folder ∧ above.workspaceId = row.workspaceId ∧
          above.changeSeq ≠ none)
    (stays : ∀ id row, db.nodes.get? id = some row →
      row.changeSeq ≠ none → (change id row).changeSeq ≠ none)
    (shown : ∀ id row, db.nodes.get? id = some row →
      (change id row).kind = .folder ∨ (change id row).trashedAt ≠ none ∨
        (change id row).currentVersionId ≠ none →
          (change id row).changeSeq ≠ none) :
    Sound { db with nodes := db.nodes.mapEntries change } := by
  have changed : ∀ {id row}, db.nodes.get? id = some row →
      (db.nodes.mapEntries change).get? id = some (change id row) := by
    intro id row found
    simp [get?_mapEntries, found]
  have before : ∀ {id after},
      (db.nodes.mapEntries change).get? id = some after →
        ∃ row, db.nodes.get? id = some row ∧ after = change id row := by
    intro id after found
    rw [get?_mapEntries] at found
    obtain ⟨row, present, equal⟩ := Option.map_eq_some_iff.mp found
    exact ⟨row, present, equal.symm⟩
  exact
    { sound with
      nodeWorkspace := fun found => by
        obtain ⟨row, present, equal⟩ := before found
        rw [equal, sameWorkspace _ row present]
        exact sound.nodeWorkspace present
      nodeParent := fun found named => by
        obtain ⟨row, present, equal⟩ := before found
        subst equal
        obtain ⟨above, aboveFound, folder, inside, seen⟩ :=
          parent _ row _ present named
        refine ⟨_, changed aboveFound, ?_, ?_, stays _ _ aboveFound seen⟩
        · rw [sameKind _ above aboveFound, folder]
        · rw [sameWorkspace _ above aboveFound,
            sameWorkspace _ row present, inside]
      versionNode := fun found => by
        obtain ⟨node, present, inside⟩ := sound.versionNode found
        exact ⟨_, changed present,
          (sameWorkspace _ node present).trans inside⟩
      uploadRows := fun found => by
        obtain ⟨version, node, present, inside, kind⟩ :=
          sound.uploadRows found
        exact ⟨version, _, changed present,
          (sameWorkspace _ node present).trans inside,
          (sameKind _ node present).trans kind⟩
      shown := fun found => by
        obtain ⟨row, present, equal⟩ := before found
        subst equal
        exact shown _ row present }

/-- A new node under a folder leaves the database sound. -/
theorem insert
    (sound : Sound db)
    {id : Uuid}
    {row : Node}
    (fresh : db.nodes.get? id = none)
    (workspace : db.workspaces.has row.workspaceId = true)
    (storage : db.storage.has row.workspaceId = true)
    (parent : ∀ parentId, row.parentId = some parentId →
      ∃ above, db.nodes.get? parentId = some above ∧
        above.kind = .folder ∧ above.workspaceId = row.workspaceId ∧
        above.changeSeq ≠ none)
    (shown : row.kind = .folder ∨ row.trashedAt ≠ none ∨
        row.currentVersionId ≠ none →
      row.changeSeq ≠ none) :
    Sound { db with nodes := db.nodes.set id row } := by
  exact
    { sound with
      nodeWorkspace := fun found => by
        rcases get?_set_cases found with
          ⟨_, equal⟩ | ⟨_, earlier⟩
        · rw [equal]
          exact ⟨workspace, storage⟩
        · exact sound.nodeWorkspace earlier
      nodeParent := fun found named => by
        rcases get?_set_cases found with
          ⟨_, equal⟩ | ⟨_, earlier⟩
        · subst equal
          obtain ⟨above, aboveFound, rest⟩ := parent _ named
          exact ⟨above, get?_set_of_found fresh aboveFound, rest⟩
        · obtain ⟨above, aboveFound, rest⟩ := sound.nodeParent earlier named
          exact ⟨above, get?_set_of_found fresh aboveFound, rest⟩
      versionNode := fun found => by
        obtain ⟨node, present, inside⟩ := sound.versionNode found
        exact ⟨node, get?_set_of_found fresh present, inside⟩
      uploadRows := fun found => by
        obtain ⟨version, node, present, rest⟩ := sound.uploadRows found
        exact ⟨version, node, get?_set_of_found fresh present, rest⟩
      shown := fun found => by
        rcases get?_set_cases found with
          ⟨_, equal⟩ | ⟨_, earlier⟩
        · rw [equal]
          exact shown
        · exact sound.shown earlier }

/-- Raising the bounds leaves the database sound. -/
theorem raise
    (sound : Sound db)
    (path : List Ancestor)
    (leafHeight : Nat) :
    Sound (raiseHeightBounds db path leafHeight) := by
  have same : (raiseHeightBounds db path leafHeight).nodes =
      db.nodes.mapEntries fun id row =>
        { row with
          heightBound := max row.heightBound (reach leafHeight id path) } := by
    refine ext_of_keys ?_ ?_
    · rw [keys_mapEntries]
      clear sound
      induction path generalizing db with
      | nil =>
        rfl
      | cons ancestor below inductionHypothesis =>
        rw [raiseHeightBounds, inductionHypothesis]
        exact keys_mapEntries _ _
    · intro id
      rw [get?_raiseHeightBounds, get?_mapEntries]
  rw [raiseHeightBounds_rest, same]
  exact sound.nodes _ (fun _ _ _ => rfl) (fun _ _ _ => rfl)
    (fun _ _ _ found named => sound.nodeParent found named)
    (fun _ _ _ seen => seen) fun _ _ found marked => by
      have shown := sound.shown found
      exact shown marked

/-- Superseding a version leaves the database sound. -/
theorem superseded
    (sound : Sound db)
    (id : Uuid)
    (supersededAt : Option Nat) :
    Sound
      (db.setVersion id fun row =>
        { row with supersededAt := supersededAt }) := by
  have before : ∀ {key after},
      (db.setVersion id fun row =>
        { row with supersededAt := supersededAt }).versions.get? key =
          some after →
        ∃ row, db.versions.get? key = some row ∧
          after.nodeId = row.nodeId ∧ after.workspaceId = row.workspaceId ∧
          after.objectId = row.objectId ∧ after.status = row.status := by
    intro key after found
    rw [Database.setVersion, get?_updateById] at found
    split at found
    · obtain ⟨row, present, equal⟩ := Option.map_eq_some_iff.mp found
      subst equal
      exact ⟨row, present, rfl, rfl, rfl, rfl⟩
    · exact ⟨after, found, rfl, rfl, rfl, rfl⟩
  have stays : ∀ {key row}, db.versions.get? key = some row →
      ∃ after, (db.setVersion id fun row =>
        { row with supersededAt := supersededAt }).versions.get? key =
          some after ∧
          after.nodeId = row.nodeId ∧ after.workspaceId = row.workspaceId ∧
          after.objectId = row.objectId ∧ after.status = row.status := by
    intro key row found
    rw [Database.setVersion, get?_updateById]
    split
    · refine ⟨{ row with supersededAt := supersededAt }, ?_, rfl, rfl, rfl,
        rfl⟩
      rw [found]
      rfl
    · exact ⟨row, found, rfl, rfl, rfl, rfl⟩
  exact
    { sound with
      versionNode := fun found => by
        obtain ⟨row, present, node, inside, _, _⟩ := before found
        rw [node, inside]
        exact sound.versionNode present
      versionObject := fun found kept => by
        obtain ⟨row, present, _, _, object, status⟩ := before found
        rw [object]
        exact sound.versionObject present (status ▸ kept)
      uploadRows := fun found => by
        obtain ⟨⟨version, present⟩, node⟩ := sound.uploadRows found
        obtain ⟨after, afterFound, _⟩ := stays present
        exact ⟨⟨after, afterFound⟩, node⟩
      uploadVersion := fun found live => by
        obtain ⟨version, present, status, node, inside, object⟩ :=
          sound.uploadVersion found live
        obtain ⟨after, afterFound, sameNode, sameWorkspace, sameObject,
          sameStatus⟩ := stays present
        exact ⟨after, afterFound, sameStatus.trans status,
          sameNode.trans node, sameWorkspace.trans inside,
          sameObject.trans object⟩
      pendingUpload := fun found pending => by
        obtain ⟨row, present, _, _, _, status⟩ := before found
        exact sound.pendingUpload present (status ▸ pending) }

/-- Retiring an object leaves the database sound. -/
theorem retire
    (sound : Sound db)
    (objectId : Uuid) :
    Sound (db.retireObjectIfUnreferenced objectId) := by
  rcases retire_cases db objectId with ⟨same, _⟩ | ⟨object, _, free, same⟩
  · rw [same]
    exact sound
  rw [same]
  have versionBefore : ∀ {id after},
      (db.retired objectId object).versions.get? id = some after →
        ∃ row, db.versions.get? id = some row ∧
          after.nodeId = row.nodeId ∧ after.workspaceId = row.workspaceId ∧
          after.status = row.status ∧
          (after.status ≠ .purged → after = row) := by
    intro id after found
    rw [Database.retired, get?_update] at found
    obtain ⟨row, present, equal⟩ := Option.map_eq_some_iff.mp found
    subst equal
    by_cases named : row.objectId = some objectId
    · simp only [named, decide_true, ↓reduceIte]
      exact ⟨row, present, rfl, rfl, rfl, fun kept =>
        absurd ⟨id, row, present, named, kept⟩ free⟩
    · simp only [named, decide_false, Bool.false_eq_true, ↓reduceIte]
      exact ⟨row, present, rfl, rfl, rfl, fun _ => rfl⟩
  have versionStays : ∀ {id row}, db.versions.get? id = some row →
      ∃ after, (db.retired objectId object).versions.get? id =
          some after ∧ (row.status ≠ .purged → after = row) := by
    intro id row found
    rw [Database.retired, get?_update, found]
    by_cases named : row.objectId = some objectId
    · exact ⟨_, rfl, fun kept =>
        absurd ⟨id, row, found, named, kept⟩ free⟩
    · exact ⟨_, rfl, fun _ => by simp [named]⟩
  have uploadBefore : ∀ {id after},
      (db.retired objectId object).uploads.get? id = some after →
        ∃ row, db.uploads.get? id = some row ∧
          after.nodeId = row.nodeId ∧ after.workspaceId = row.workspaceId ∧
          after.versionId = row.versionId ∧ after.status = row.status ∧
          after.reservedBytes = row.reservedBytes ∧
          (row.objectId ≠ some objectId → after.objectId = row.objectId) := by
    intro id after found
    rw [Database.retired, get?_update] at found
    obtain ⟨row, present, equal⟩ := Option.map_eq_some_iff.mp found
    subst equal
    by_cases named : row.objectId = some objectId
    · simp only [named, decide_true, ↓reduceIte]
      exact ⟨row, present, rfl, rfl, rfl, rfl, rfl, fun other =>
        absurd named other⟩
    · simp only [named, decide_false, Bool.false_eq_true, ↓reduceIte]
      exact ⟨row, present, rfl, rfl, rfl, rfl, rfl, fun _ => rfl⟩
  have uploadStays : ∀ {id row}, db.uploads.get? id = some row →
      ∃ after, (db.retired objectId object).uploads.get? id =
          some after ∧ after.versionId = row.versionId ∧
          after.status = row.status := by
    intro id row found
    rw [Database.retired, get?_update, found]
    refine ⟨_, rfl, ?_⟩
    by_cases named : row.objectId = some objectId
    · simp [named]
    · simp [named]
  exact
    { sound with
      versionNode := fun found => by
        obtain ⟨row, present, node, inside, _⟩ := versionBefore found
        rw [node, inside]
        exact sound.versionNode present
      versionObject := fun found kept => by
        obtain ⟨row, present, _, _, _, equal⟩ := versionBefore found
        obtain rfl := equal kept
        obtain ⟨named, stored, itsObject, there⟩ :=
          sound.versionObject present kept
        refine ⟨named, stored, itsObject, ?_⟩
        have differs : named ≠ objectId := fun equal =>
          free ⟨_, _, present, equal ▸ itsObject, kept⟩
        simp [Database.retired, there, differs, Option.filter]
      uploadRows := fun found => by
        obtain ⟨row, present, node, inside, version, _⟩ :=
          uploadBefore found
        obtain ⟨⟨earlier, there⟩, standing⟩ := sound.uploadRows present
        obtain ⟨after, afterFound, _⟩ := versionStays there
        rw [version, node, inside]
        exact ⟨⟨after, afterFound⟩, standing⟩
      uploadOne := fun found otherFound sameVersion => by
        obtain ⟨row, present, _, _, version, _⟩ := uploadBefore found
        obtain ⟨other, otherPresent, _, _, otherVersion, _⟩ :=
          uploadBefore otherFound
        refine sound.uploadOne present otherPresent ?_
        rw [← version, ← otherVersion, sameVersion]
      uploadVersion := fun found live => by
        obtain ⟨row, present, node, inside, version, status, _, keeps⟩ :=
          uploadBefore found
        obtain ⟨earlier, there, pending, itsNode, itsWorkspace, itsObject⟩ :=
          sound.uploadVersion present (status ▸ live)
        obtain ⟨after, afterFound, equal⟩ := versionStays there
        obtain rfl := equal (by rw [pending]; decide)
        have other : row.objectId ≠ some objectId := fun named =>
          free ⟨_, _, there, itsObject.trans named, by rw [pending]; decide⟩
        rw [version, node, inside, keeps other]
        exact ⟨_, afterFound, pending, itsNode, itsWorkspace, itsObject⟩
      pendingUpload := fun found pending => by
        obtain ⟨row, present, _, _, status, _⟩ := versionBefore found
        obtain ⟨uploadId, upload, there, version, live⟩ :=
          sound.pendingUpload present (status ▸ pending)
        obtain ⟨after, afterFound, sameVersion, sameStatus⟩ :=
          uploadStays there
        exact ⟨uploadId, after, afterFound, sameVersion.trans version,
          sameStatus ▸ live⟩
      reservedNonneg := fun found => by
        obtain ⟨row, present, _, _, _, _, bytes, _⟩ := uploadBefore found
        rw [bytes]
        exact sound.reservedNonneg present }

theorem retireNamed
    (sound : Sound db)
    (objectId : Option Uuid) :
    Sound (db.retireNamed objectId) := by
  cases objectId with
  | none => exact sound
  | some objectId => exact sound.retire objectId

/-- Purging a version no upload holds leaves the database sound. -/
theorem purgeRow
    (sound : Sound db)
    (id : Uuid)
    (unheld : ∀ uploadId upload, db.uploads.get? uploadId = some upload →
      upload.versionId = id → upload.status.live = false) :
    Sound (db.purgeVersionRow id) := by
  have before : ∀ {key after},
      (db.purgeVersionRow id).versions.get? key = some after →
        ∃ row, db.versions.get? key = some row ∧
          after.nodeId = row.nodeId ∧ after.workspaceId = row.workspaceId ∧
          (after.status ≠ .purged → after = row) := by
    intro key after found
    rw [Database.purgeVersionRow, Database.setVersion,
      get?_updateById] at found
    split at found
    · obtain ⟨row, present, equal⟩ := Option.map_eq_some_iff.mp found
      subst equal
      exact ⟨row, present, rfl, rfl, fun kept => absurd rfl kept⟩
    · exact ⟨after, found, rfl, rfl, fun _ => rfl⟩
  have there : ∀ {key row}, db.versions.get? key = some row →
      ∃ after, (db.purgeVersionRow id).versions.get? key = some after ∧
        (key ≠ id → after = row) := by
    intro key row found
    rw [Database.purgeVersionRow, Database.setVersion, get?_updateById,
      found]
    by_cases same : key = id
    · exact ⟨_, by rw [if_pos same]; rfl, fun other => absurd same other⟩
    · exact ⟨row, if_neg same, fun _ => rfl⟩
  exact
    { sound with
      versionNode := fun found => by
        obtain ⟨row, present, node, inside, _⟩ := before found
        rw [node, inside]
        exact sound.versionNode present
      versionObject := fun found kept => by
        obtain ⟨row, present, _, _, equal⟩ := before found
        obtain rfl := equal kept
        exact sound.versionObject present kept
      uploadRows := fun found => by
        obtain ⟨⟨version, present⟩, node⟩ := sound.uploadRows found
        obtain ⟨after, afterFound, _⟩ := there present
        exact ⟨⟨after, afterFound⟩, node⟩
      uploadVersion := fun found live => by
        obtain ⟨version, present, rest⟩ := sound.uploadVersion found live
        obtain ⟨after, afterFound, equal⟩ := there present
        have other : _ ≠ id := fun same => by
          have dead := unheld _ _ found same
          rw [live] at dead
          cases dead
        obtain rfl := equal other
        exact ⟨_, afterFound, rest⟩
      pendingUpload := fun found pending => by
        obtain ⟨row, present, _, _, equal⟩ := before found
        obtain rfl := equal (by rw [pending]; decide)
        exact sound.pendingUpload present pending }

variable {id : Uuid} {row : Upload}

/-- An upload changed within its state leaves the database sound. -/
theorem upload
    (sound : Sound db)
    {change : Upload → Upload}
    (found : db.uploads.get? id = some row)
    (sameWorkspace : (change row).workspaceId = row.workspaceId)
    (sameNode : (change row).nodeId = row.nodeId)
    (sameVersion : (change row).versionId = row.versionId)
    (sameObject : (change row).objectId = row.objectId)
    (sameLive : (change row).status.live = row.status.live)
    (nonneg : 0 ≤ (change row).reservedBytes) :
    Sound (db.setUpload id change) := by
  have before : ∀ {key after},
      (db.setUpload id change).uploads.get? key = some after →
        ∃ earlier, db.uploads.get? key = some earlier ∧
          after.workspaceId = earlier.workspaceId ∧
          after.nodeId = earlier.nodeId ∧
          after.versionId = earlier.versionId ∧
          after.objectId = earlier.objectId ∧
          after.status.live = earlier.status.live ∧
          0 ≤ after.reservedBytes := by
    intro key after afterFound
    rw [Database.setUpload, get?_updateById] at afterFound
    split at afterFound
    · next same =>
        rw [same, found] at afterFound
        obtain rfl := Option.some.inj afterFound
        exact ⟨row, same ▸ found, sameWorkspace, sameNode, sameVersion,
          sameObject, sameLive, nonneg⟩
    · exact ⟨after, afterFound, rfl, rfl, rfl, rfl, rfl,
        sound.reservedNonneg afterFound⟩
  have there : ∀ {key earlier}, db.uploads.get? key = some earlier →
      ∃ after, (db.setUpload id change).uploads.get? key = some after ∧
        after.versionId = earlier.versionId ∧
        after.status.live = earlier.status.live := by
    intro key earlier present
    rw [Database.setUpload, get?_updateById]
    split
    · next same =>
        rw [same, found] at present
        obtain rfl := Option.some.inj present
        exact ⟨change row, by rw [same, found]; rfl, sameVersion, sameLive⟩
    · exact ⟨earlier, present, rfl, rfl⟩
  exact
    { sound with
      uploadRows := fun afterFound => by
        obtain ⟨earlier, present, inside, node, version, _⟩ :=
          before afterFound
        rw [inside, node, version]
        exact sound.uploadRows present
      uploadOne := fun afterFound otherFound same => by
        obtain ⟨earlier, present, _, _, version, _⟩ := before afterFound
        obtain ⟨other, otherPresent, _, _, otherVersion, _⟩ :=
          before otherFound
        refine sound.uploadOne present otherPresent ?_
        rw [← version, ← otherVersion, same]
      uploadVersion := fun afterFound live => by
        obtain ⟨earlier, present, inside, node, version, object, alive, _⟩ :=
          before afterFound
        rw [inside, node, version, object]
        exact sound.uploadVersion present (alive ▸ live)
      pendingUpload := fun versionFound pending => by
        obtain ⟨uploadId, earlier, present, version, live⟩ :=
          sound.pendingUpload versionFound pending
        obtain ⟨after, afterFound, sameId, alive⟩ := there present
        exact ⟨uploadId, after, afterFound, sameId.trans version,
          alive.trans live⟩
      reservedNonneg := fun afterFound => by
        obtain ⟨_, _, _, _, _, _, _, bytes⟩ := before afterFound
        exact bytes }

/-- Closing a live upload leaves the database sound. -/
theorem close
    (sound : Sound db)
    {status : UploadStatus}
    (ended : VersionStatus)
    (found : db.uploads.get? id = some row)
    (live : row.status.live = true)
    (dead : status.live = false)
    (settled : ended ≠ .pending) :
    Sound
      ((db.setVersion row.versionId fun version =>
        { version with status := ended }).setUpload id fun upload =>
          { upload with status := status, reservedBytes := 0 }) := by
  obtain ⟨version, versionFound, pending, _⟩ :=
    sound.uploadVersion found live
  have versionBefore : ∀ {key after},
      (db.setVersion row.versionId fun version =>
        { version with status := ended }).versions.get? key = some after →
        ∃ earlier, db.versions.get? key = some earlier ∧
          after.nodeId = earlier.nodeId ∧
          after.workspaceId = earlier.workspaceId ∧
          after.objectId = earlier.objectId ∧
          ((key = row.versionId ∧ after.status = ended) ∨
            (key ≠ row.versionId ∧ after = earlier)) := by
    intro key after afterFound
    rw [Database.setVersion, get?_updateById] at afterFound
    split at afterFound
    · next same =>
        obtain ⟨earlier, present, equal⟩ :=
          Option.map_eq_some_iff.mp afterFound
        subst equal
        exact ⟨earlier, present, rfl, rfl, rfl, .inl ⟨same, rfl⟩⟩
    · next other =>
        exact ⟨after, afterFound, rfl, rfl, rfl, .inr ⟨other, rfl⟩⟩
  have versionStays : ∀ {key earlier},
      db.versions.get? key = some earlier →
        ∃ after, (db.setVersion row.versionId fun version =>
          { version with status := ended }).versions.get? key =
            some after ∧ (key ≠ row.versionId → after = earlier) := by
    intro key earlier present
    rw [Database.setVersion, get?_updateById, present]
    by_cases same : key = row.versionId
    · exact ⟨_, by rw [if_pos same]; rfl, fun other => absurd same other⟩
    · exact ⟨earlier, if_neg same, fun _ => rfl⟩
  have uploadBefore : ∀ {key after},
      (db.setUpload id fun upload =>
        { upload with status := status, reservedBytes := 0 }).uploads.get?
          key = some after →
        ∃ earlier, db.uploads.get? key = some earlier ∧
          after.nodeId = earlier.nodeId ∧
          after.workspaceId = earlier.workspaceId ∧
          after.versionId = earlier.versionId ∧
          (after.status.live = true → key ≠ id ∧ after = earlier) ∧
          0 ≤ after.reservedBytes := by
    intro key after afterFound
    rw [Database.setUpload, get?_updateById] at afterFound
    split at afterFound
    · next same =>
        obtain ⟨earlier, present, equal⟩ :=
          Option.map_eq_some_iff.mp afterFound
        subst equal
        refine ⟨earlier, present, rfl, rfl, rfl, fun alive => ?_, le_refl 0⟩
        rw [dead] at alive
        cases alive
    · next other =>
        exact ⟨after, afterFound, rfl, rfl, rfl, fun _ => ⟨other, rfl⟩,
          sound.reservedNonneg afterFound⟩
  exact
    { sound with
      versionNode := fun afterFound => by
        obtain ⟨earlier, present, node, inside, _⟩ :=
          versionBefore afterFound
        rw [node, inside]
        exact sound.versionNode present
      versionObject := fun afterFound kept => by
        obtain ⟨earlier, present, _, _, object, ends | ⟨_, equal⟩⟩ :=
          versionBefore afterFound
        · rw [ends.1, versionFound] at present
          obtain rfl := Option.some.inj present
          rw [object]
          exact sound.versionObject versionFound (by rw [pending]; decide)
        · subst equal
          exact sound.versionObject present kept
      uploadRows := fun afterFound => by
        obtain ⟨earlier, present, node, inside, sameVersion, _⟩ :=
          uploadBefore afterFound
        obtain ⟨⟨before, there⟩, standing⟩ := sound.uploadRows present
        obtain ⟨after, stays, _⟩ := versionStays there
        rw [node, inside, sameVersion]
        exact ⟨⟨after, stays⟩, standing⟩
      uploadOne := fun afterFound otherFound same => by
        obtain ⟨earlier, present, _, _, sameVersion, _⟩ :=
          uploadBefore afterFound
        obtain ⟨other, otherPresent, _, _, otherVersion, _⟩ :=
          uploadBefore otherFound
        refine sound.uploadOne present otherPresent ?_
        rw [← sameVersion, ← otherVersion, same]
      uploadVersion := fun afterFound alive => by
        obtain ⟨earlier, present, _, _, _, keeps, _⟩ :=
          uploadBefore afterFound
        obtain ⟨other, equal⟩ := keeps alive
        subst equal
        obtain ⟨before, there, rest⟩ := sound.uploadVersion present alive
        obtain ⟨after, stays, equal⟩ := versionStays there
        obtain rfl := equal fun same =>
          other (sound.uploadOne present found same)
        exact ⟨_, stays, rest⟩
      pendingUpload := fun afterFound waits => by
        obtain ⟨earlier, present, _, _, _, ends | ⟨other, equal⟩⟩ :=
          versionBefore afterFound
        · rw [ends.2] at waits
          exact absurd waits settled
        · subst equal
          obtain ⟨uploadId, upload, there, sameVersion, alive⟩ :=
            sound.pendingUpload present waits
          refine ⟨uploadId, upload, ?_, sameVersion, alive⟩
          have differs : uploadId ≠ id := by
            rintro rfl
            rw [found] at there
            obtain rfl := Option.some.inj there
            exact other sameVersion.symm
          rw [Database.setUpload, get?_updateById, if_neg differs]
          exact there
      reservedNonneg := fun afterFound => by
        obtain ⟨_, _, _, _, _, _, bytes⟩ := uploadBefore afterFound
        exact bytes }

theorem released
    (sound : Sound db)
    {status : UploadStatus}
    (found : db.uploads.get? id = some row)
    (live : row.status.live = true)
    (dead : status.live = false) :
    Sound (releaseUpload db id { row with newNode := false } status) := by
  have closed := (sound.adjustStorage row.workspaceId 0
    (-row.reservedBytes)).close .purged found live dead (by decide)
  exact closed.retireNamed row.objectId

theorem readied
    (sound : Sound db)
    (found : db.uploads.get? id = some row)
    (live : row.status.live = true)
    (objectId size : Nat) :
    Sound (db.readied id row objectId size) := by
  have paid := (sound.adjustStorage row.workspaceId size
    (-row.reservedBytes)).object objectId fun object =>
      { object with status := .ready }
  exact paid.close .ready found live rfl (by decide)

theorem expired
    (sound : Sound db)
    {version : PurgedVersion}
    {row : Version}
    (found : db.versions.get? version.id = some row)
    (ready : row.status = .ready)
    (workspaceId : Uuid) :
    Sound (purgeReady db workspaceId version) := by
  have purged := sound.purgeRow version.id
    fun uploadId upload present names => by
      by_contra alive
      simp only [Bool.not_eq_false] at alive
      obtain ⟨begun, there, pending, _⟩ := sound.uploadVersion present alive
      rw [names, found] at there
      obtain rfl := Option.some.inj there
      rw [ready] at pending
      cases pending
  exact (purged.adjustStorage _ _ _).retireNamed _

/-- A new version of a node leaves the database sound. -/
theorem insertVersion
    (sound : Sound db)
    {row : Version}
    (fresh : db.versions.get? id = none)
    (node : ∃ target, db.nodes.get? row.nodeId = some target ∧
      target.workspaceId = row.workspaceId)
    (notPending : row.status ≠ .pending)
    (object : ∃ objectId stored, row.objectId = some objectId ∧
      db.objects.get? objectId = some stored) :
    Sound { db with versions := db.versions.set id row } := by
  exact
    { sound with
      versionNode := fun found => by
        rcases get?_set_cases found with
          ⟨_, equal⟩ | ⟨_, earlier⟩
        · rw [equal]
          exact node
        · exact sound.versionNode earlier
      versionObject := fun found kept => by
        rcases get?_set_cases found with
          ⟨_, equal⟩ | ⟨_, earlier⟩
        · rw [equal]
          exact object
        · exact sound.versionObject earlier kept
      uploadRows := fun found => by
        obtain ⟨⟨version, present⟩, standing⟩ := sound.uploadRows found
        exact ⟨⟨version, get?_set_of_found fresh present⟩, standing⟩
      uploadVersion := fun found live => by
        obtain ⟨version, present, rest⟩ := sound.uploadVersion found live
        exact ⟨version, get?_set_of_found fresh present, rest⟩
      pendingUpload := fun found pending => by
        rcases get?_set_cases found with
          ⟨_, equal⟩ | ⟨_, earlier⟩
        · rw [equal] at pending
          exact absurd pending notPending
        · exact sound.pendingUpload earlier pending }

/-- A begun upload leaves the database sound. -/
theorem begun
    (sound : Sound db)
    {object : Uuid × StoredObject}
    {version : Uuid × Version}
    {upload : Uuid × Upload}
    (freshObject : db.objects.get? object.1 = none)
    (freshVersion : db.versions.get? version.1 = none)
    (freshUpload : db.uploads.get? upload.1 = none)
    (node : ∃ row, db.nodes.get? version.2.nodeId = some row ∧
      row.workspaceId = version.2.workspaceId ∧ row.kind = .file)
    (pending : version.2.status = .pending)
    (itsObject : version.2.objectId = some object.1)
    (live : upload.2.status.live = true)
    (names : upload.2.versionId = version.1)
    (sameNode : version.2.nodeId = upload.2.nodeId)
    (sameWorkspace : version.2.workspaceId = upload.2.workspaceId)
    (sameObject : version.2.objectId = upload.2.objectId)
    (nonneg : 0 ≤ upload.2.reservedBytes) :
    Sound (db.begun object version upload) := by
  have paid := sound.adjustStorage upload.2.workspaceId 0
    upload.2.reservedBytes
  have own : (db.versions.set version.1 version.2).get? version.1 =
      some version.2 :=
    get?_set_self _ _ _
  exact
    { paid with
      versionNode := fun found => by
        rcases get?_set_cases found with
          ⟨_, equal⟩ | ⟨_, earlier⟩
        · rw [equal]
          obtain ⟨row, present, inside, _⟩ := node
          exact ⟨row, present, inside⟩
        · exact sound.versionNode earlier
      versionObject := fun found kept => by
        rcases get?_set_cases found with
          ⟨_, equal⟩ | ⟨_, earlier⟩
        · rw [equal]
          exact ⟨object.1, object.2, itsObject,
            get?_set_self _ _ _⟩
        · obtain ⟨objectId, stored, named, present⟩ :=
            sound.versionObject earlier kept
          exact ⟨objectId, stored, named,
            get?_set_of_found freshObject present⟩
      uploadRows := fun found => by
        rcases get?_set_cases found with
          ⟨_, equal⟩ | ⟨_, earlier⟩
        · rw [equal, names, ← sameNode, ← sameWorkspace]
          exact ⟨⟨version.2, own⟩, node⟩
        · obtain ⟨⟨begun, present⟩, standing⟩ := sound.uploadRows earlier
          exact ⟨⟨begun, get?_set_of_found freshVersion present⟩,
            standing⟩
      uploadOne := fun {id other row otherRow} found otherFound same => by
        have unused : ∀ {key earlier}, db.uploads.get? key = some earlier →
            earlier.versionId ≠ version.1 := by
          intro key earlier present equal
          obtain ⟨⟨begun, there⟩, _⟩ := sound.uploadRows present
          rw [equal, freshVersion] at there
          cases there
        rcases get?_set_cases found with
          ⟨equal, rowEqual⟩ | ⟨_, earlier⟩
        · rcases get?_set_cases otherFound with
            ⟨otherEqual, _⟩ | ⟨_, otherEarlier⟩
          · exact equal.trans otherEqual.symm
          · rw [rowEqual, names] at same
            exact absurd same.symm (unused otherEarlier)
        · rcases get?_set_cases otherFound with
            ⟨_, otherEqual⟩ | ⟨_, otherEarlier⟩
          · rw [otherEqual, names] at same
            exact absurd same (unused earlier)
          · exact sound.uploadOne earlier otherEarlier same
      uploadVersion := fun found alive => by
        rcases get?_set_cases found with
          ⟨_, equal⟩ | ⟨_, earlier⟩
        · rw [equal, names]
          exact ⟨version.2, own, pending, sameNode, sameWorkspace,
            sameObject⟩
        · obtain ⟨begun, present, rest⟩ := sound.uploadVersion earlier alive
          exact ⟨begun, get?_set_of_found freshVersion present,
            rest⟩
      pendingUpload := fun found waits => by
        rcases get?_set_cases found with
          ⟨equal, _⟩ | ⟨_, earlier⟩
        · exact ⟨upload.1, upload.2,
            by show (db.uploads.set _ _).get? _ = _
               rw [get?_set, if_pos rfl],
            names.trans equal.symm, live⟩
        · obtain ⟨uploadId, earlierUpload, present, rest⟩ :=
            sound.pendingUpload earlier waits
          exact ⟨uploadId, earlierUpload,
            get?_set_of_found freshUpload present, rest⟩
      reservedNonneg := fun found => by
        rcases get?_set_cases found with
          ⟨_, equal⟩ | ⟨_, earlier⟩
        · rw [equal]
          exact nonneg
        · exact sound.reservedNonneg earlier }

/-- An upload bound to another node leaves the database sound. -/
theorem rebound
    (sound : Sound db)
    {nodeId : Uuid}
    (found : db.uploads.get? id = some row)
    (live : row.status.live = true)
    (node : ∃ target, db.nodes.get? nodeId = some target ∧
      target.workspaceId = row.workspaceId ∧ target.kind = .file)
    (keyEpoch : Nat) :
    Sound (db.rebound id row.versionId nodeId keyEpoch) := by
  obtain ⟨version, versionFound, pending, itsNode, itsWorkspace, itsObject⟩ :=
    sound.uploadVersion found live
  obtain ⟨target, targetFound, inside, kind⟩ := node
  have versionAfter : ∀ key,
      (db.rebound id row.versionId nodeId keyEpoch).versions.get? key =
        if key = row.versionId then some { version with nodeId := nodeId }
        else db.versions.get? key := by
    intro key
    show (db.versions.update _ _).get? key = _
    rw [get?_updateById]
    split
    · next same =>
        rw [same, versionFound]
        rfl
    · rfl
  have uploadAfter : ∀ key,
      (db.rebound id row.versionId nodeId keyEpoch).uploads.get? key =
        if key = id then
          some
            { row with
              nodeId := nodeId
              keyEpoch := keyEpoch
              expectedVersionId := none
              newNode := true }
        else db.uploads.get? key := by
    intro key
    show (db.uploads.update _ _).get? key = _
    rw [get?_updateById]
    split
    · next same =>
        rw [same, found]
        rfl
    · rfl
  have versionCases : ∀ {key after},
      (db.rebound id row.versionId nodeId keyEpoch).versions.get? key =
        some after →
        (key = row.versionId ∧ after = { version with nodeId := nodeId }) ∨
          (key ≠ row.versionId ∧ db.versions.get? key = some after) := by
    intro key after afterFound
    rw [versionAfter] at afterFound
    split at afterFound
    · next same => exact .inl ⟨same, (Option.some.inj afterFound).symm⟩
    · next other => exact .inr ⟨other, afterFound⟩
  have uploadCases : ∀ {key after},
      (db.rebound id row.versionId nodeId keyEpoch).uploads.get? key =
        some after →
        ∃ earlier, db.uploads.get? key = some earlier ∧
          after.versionId = earlier.versionId ∧
          after.status = earlier.status ∧
          after.workspaceId = earlier.workspaceId ∧
          after.objectId = earlier.objectId ∧
          after.reservedBytes = earlier.reservedBytes ∧
          ((key = id ∧ after.nodeId = nodeId) ∨
            (key ≠ id ∧ after = earlier)) := by
    intro key after afterFound
    rw [uploadAfter] at afterFound
    split at afterFound
    · next same =>
        obtain rfl := Option.some.inj afterFound
        exact ⟨row, same ▸ found, rfl, rfl, rfl, rfl, rfl,
          .inl ⟨same, rfl⟩⟩
    · next other =>
        exact ⟨after, afterFound, rfl, rfl, rfl, rfl, rfl,
          .inr ⟨other, rfl⟩⟩
  exact
    { sound with
      versionNode := fun afterFound => by
        rcases versionCases afterFound with ⟨_, equal⟩ | ⟨_, earlier⟩
        · rw [equal]
          exact ⟨target, targetFound, inside.trans itsWorkspace.symm⟩
        · exact sound.versionNode earlier
      versionObject := fun afterFound kept => by
        rcases versionCases afterFound with ⟨_, equal⟩ | ⟨_, earlier⟩
        · have stored := sound.versionObject versionFound
            (by rw [pending]; decide)
          rw [equal]
          exact stored
        · exact sound.versionObject earlier kept
      uploadRows := fun afterFound => by
        obtain ⟨earlier, present, sameVersion, _, sameWorkspace, _, _,
          ⟨same, moved⟩ | ⟨_, equal⟩⟩ := uploadCases afterFound
        · rw [same, found] at present
          obtain rfl := Option.some.inj present
          rw [sameVersion, moved, sameWorkspace]
          exact ⟨⟨_, by rw [versionAfter, if_pos rfl]⟩, target, targetFound,
            inside, kind⟩
        · subst equal
          obtain ⟨⟨begun, there⟩, standing⟩ := sound.uploadRows present
          refine ⟨?_, standing⟩
          rw [versionAfter]
          split
          · exact ⟨_, rfl⟩
          · exact ⟨begun, there⟩
      uploadOne := fun afterFound otherFound same => by
        obtain ⟨earlier, present, sameVersion, _⟩ := uploadCases afterFound
        obtain ⟨other, otherPresent, otherVersion, _⟩ :=
          uploadCases otherFound
        refine sound.uploadOne present otherPresent ?_
        rw [← sameVersion, ← otherVersion, same]
      uploadVersion := fun afterFound alive => by
        obtain ⟨earlier, present, sameVersion, _, sameWorkspace, sameObject,
          _, ⟨same, moved⟩ | ⟨other, equal⟩⟩ := uploadCases afterFound
        · rw [same, found] at present
          obtain rfl := Option.some.inj present
          refine ⟨{ version with nodeId := nodeId }, ?_, pending, moved.symm,
            ?_, ?_⟩
          · rw [sameVersion, versionAfter, if_pos rfl]
          · rw [sameWorkspace]
            exact itsWorkspace
          · rw [sameObject]
            exact itsObject
        · subst equal
          obtain ⟨begun, there, rest⟩ := sound.uploadVersion present alive
          refine ⟨begun, ?_, rest⟩
          rw [versionAfter, if_neg fun same =>
            other (sound.uploadOne present found same)]
          exact there
      pendingUpload := fun {key after} afterFound waits => by
        have earlierPending : ∃ earlier,
            db.versions.get? key = some earlier ∧
              earlier.status = .pending := by
          rcases versionCases afterFound with ⟨same, equal⟩ | ⟨_, earlier⟩
          · exact ⟨version, same ▸ versionFound, pending⟩
          · exact ⟨after, earlier, waits⟩
        obtain ⟨earlier, present, earlierWaits⟩ := earlierPending
        obtain ⟨uploadId, upload, there, names, alive⟩ :=
          sound.pendingUpload present earlierWaits
        by_cases same : uploadId = id
        · rw [same, found] at there
          obtain rfl := Option.some.inj there
          refine ⟨id, _, (uploadAfter id).trans (if_pos rfl), names, alive⟩
        · exact ⟨uploadId, upload, by rw [uploadAfter, if_neg same, there],
            names, alive⟩
      reservedNonneg := fun afterFound => by
        obtain ⟨earlier, present, _, _, _, _, sameBytes, _⟩ :=
          uploadCases afterFound
        rw [sameBytes]
        exact sound.reservedNonneg present }

/-- Deleting nodes with those below them leaves the database sound. -/
theorem deleted
    (sound : Sound db)
    {gone : Uuid → Node → Bool}
    (leaves : ∀ id row, db.nodes.get? id = some row →
      gone id row = true →
        ∀ child childRow, db.nodes.get? child = some childRow →
          childRow.parentId ≠ some id) :
    Sound (db.deleteNodes gone) where
  workspaceStorage := sound.workspaceStorage
  nodeWorkspace := fun found => by
    obtain ⟨row, present, _, equal⟩ := node_of_deleted found
    have standing := sound.nodeWorkspace present
    rcases equal with equal | equal <;> rw [equal] <;> exact standing
  nodeParent := fun {_ _ parentId} found named => by
    obtain ⟨row, present, _, equal⟩ := node_of_deleted found
    have parent : row.parentId = some parentId := by
      rcases equal with equal | equal <;> rw [equal] at named <;> exact named
    obtain ⟨above, aboveFound, folder, inside, seen⟩ :=
      sound.nodeParent present parent
    have stays : gone parentId above = false := by
      by_contra goes
      simp only [Bool.not_eq_false] at goes
      exact leaves _ above aboveFound goes _ row present parent
    obtain ⟨after, afterFound, same⟩ := deleted_of_node aboveFound stays
    refine ⟨after, afterFound, ?_⟩
    rcases equal with equal | equal <;> rcases same with same | same <;>
      rw [equal, same] <;> exact ⟨folder, inside, seen⟩
  versionNode := fun found => by
    obtain ⟨present, stays⟩ := version_of_deleted.mp found
    obtain ⟨node, there, inside⟩ := sound.versionNode present
    rw [meetsAt_of_found there] at stays
    obtain ⟨after, afterFound, equal | equal⟩ := deleted_of_node there stays
    · exact ⟨after, afterFound, by rw [equal]; exact inside⟩
    · exact ⟨after, afterFound, by rw [equal]; exact inside⟩
  versionObject := fun found kept =>
    sound.versionObject (version_of_deleted.mp found).1 kept
  uploadRows := fun found => by
    obtain ⟨present, itsVersion, stays⟩ := upload_of_deleted.mp found
    obtain ⟨⟨version, there⟩, node, nodeFound, rest⟩ :=
      sound.uploadRows present
    rw [meetsAt_of_found nodeFound] at stays
    obtain ⟨after, afterFound, equal⟩ := deleted_of_node nodeFound stays
    refine ⟨⟨version, version_of_deleted.mpr
      ⟨there, itsVersion version there⟩⟩, after, afterFound, ?_⟩
    rcases equal with equal | equal <;> rw [equal] <;> exact rest
  uploadOne := fun found otherFound same =>
    sound.uploadOne (upload_of_deleted.mp found).1
      (upload_of_deleted.mp otherFound).1 same
  uploadVersion := fun found live => by
    obtain ⟨present, itsVersion, _⟩ := upload_of_deleted.mp found
    obtain ⟨version, there, rest⟩ := sound.uploadVersion present live
    exact ⟨version, version_of_deleted.mpr
      ⟨there, itsVersion version there⟩, rest⟩
  pendingUpload := fun found pending => by
    obtain ⟨present, stays⟩ := version_of_deleted.mp found
    obtain ⟨uploadId, upload, there, names, live⟩ :=
      sound.pendingUpload present pending
    obtain ⟨version, versionFound, _, node, _⟩ :=
      sound.uploadVersion there live
    rw [names, present] at versionFound
    obtain rfl := Option.some.inj versionFound
    refine ⟨uploadId, upload, upload_of_deleted.mpr ⟨there, ?_, ?_⟩, names,
      live⟩
    · intro version versionFound
      rw [names, present] at versionFound
      obtain rfl := Option.some.inj versionFound
      exact stays
    · rw [← node]
      exact stays
  reservedNonneg := fun found =>
    sound.reservedNonneg (upload_of_deleted.mp found).1
  shown := fun found marked => by
    obtain ⟨row, present, _, equal | equal⟩ := node_of_deleted found
    · rw [equal] at marked ⊢
      exact sound.shown present marked
    · rw [equal] at marked ⊢
      have shown : row.changeSeq ≠ none := by
        rcases marked with folder | trashed | current
        · exact sound.shown present (.inl folder)
        · exact sound.shown present (.inr (.inl trashed))
        · exact absurd rfl current
      exact shown

/-- A node put under a folder leaves the database sound. -/
theorem setNode
    (sound : Sound db)
    {row : Node}
    {change : Node → Node}
    (found : db.nodes.get? id = some row)
    (sameWorkspace : (change row).workspaceId = row.workspaceId)
    (sameKind : (change row).kind = row.kind)
    (parent : ∀ parentId, (change row).parentId = some parentId →
      ∃ above, db.nodes.get? parentId = some above ∧
        above.kind = .folder ∧ above.workspaceId = row.workspaceId ∧
        above.changeSeq ≠ none)
    (shown : (change row).changeSeq ≠ none) :
    Sound (db.setNode id change) := by
  have cases_ : ∀ key other, db.nodes.get? key = some other →
      (other = row ∧
        (if byId id key other then change other else other) = change row) ∨
      (if byId id key other then change other else other) = other := by
    intro key other otherFound
    by_cases same : key = id
    · rw [same, found] at otherFound
      obtain rfl := Option.some.inj otherFound
      exact .inl ⟨rfl, by simp [byId, same]⟩
    · exact .inr (by simp [byId, same])
  refine sound.nodes
    (fun key other => if byId id key other then change other else other)
    ?_ ?_ ?_ ?_ ?_
  · intro key other otherFound
    rcases cases_ key other otherFound with ⟨equal, after⟩ | after
    · rw [after, equal, sameWorkspace]
    · rw [after]
  · intro key other otherFound
    rcases cases_ key other otherFound with ⟨equal, after⟩ | after
    · rw [after, equal, sameKind]
    · rw [after]
  · intro key other parentId otherFound named
    rcases cases_ key other otherFound with ⟨equal, after⟩ | after
    · rw [after] at named
      rw [equal]
      exact parent parentId named
    · rw [after] at named
      exact sound.nodeParent otherFound named
  · intro key other otherFound seen
    rcases cases_ key other otherFound with ⟨_, after⟩ | after
    · rw [after]
      exact shown
    · rw [after]
      exact seen
  · intro key other otherFound marked
    rcases cases_ key other otherFound with ⟨_, after⟩ | after
    · rw [after]
      exact shown
    · rw [after] at marked ⊢
      exact sound.shown otherFound marked

/-- Every change leaves the database sound. -/
theorem change
    (sound : Sound db)
    {care : Care}
    {after : Database}
    (change : Change care db after) :
    Sound after := by
  cases change with
  | workspace id change _ =>
    exact sound.workspace id change
  | opened id workspace storage _ _ _ =>
    exact sound.opened id workspace storage
  | beside rotations shares shareEvents accounts =>
    exact { sound with }
  | outbox id change _ =>
    exact { sound with }
  | object id change _ _ =>
    exact sound.object id change
  | superseded id supersededAt =>
    exact sound.superseded id supersededAt
  | upload id change row found sameWorkspace sameNode sameVersion sameObject
      sameBytes sameLive =>
      exact sound.upload found sameWorkspace sameNode sameVersion sameObject
        sameLive (sameBytes ▸ sound.reservedNonneg found)
  | marked change marks =>
    refine sound.nodes change
      (fun id row found => (marks id row found).workspaceId)
      (fun id row found => (marks id row found).kind) ?_
      (fun id row found => (marks id row found).shown) ?_
    · intro id row parentId found named
      rw [(marks id row found).parentId] at named
      exact sound.nodeParent found named
    · intro id row found marked
      rcases marked with folder | trashed | current
      · rw [(marks id row found).kind] at folder
        exact (marks id row found).shown
          (sound.shown found (.inl folder))
      · by_cases same : (change id row).trashedAt = row.trashedAt
        · rw [same] at trashed
          exact (marks id row found).shown
            (sound.shown found (.inr (.inl trashed)))
        · exact (marks id row found).trashed same
      · rw [(marks id row found).currentVersionId] at current
        exact (marks id row found).shown
          (sound.shown found (.inr (.inr current)))
  | placed id row change parentId path found held _ _ _ parent
      sameWorkspace sameKind _ _ _ shown =>
      refine (sound.setNode found sameWorkspace sameKind ?_ shown).raise _ _
      intro named equal
      rw [parent] at equal
      obtain rfl := Option.some.inj equal
      exact held.folder
  | grown id row path fresh workspace storage parent shown _ _ _ =>
    refine Sound.raise (sound.insert fresh workspace storage ?_
      fun _ => shown) _ _
    exact fun parentId named => (parent parentId named).folder
  | sprouted id row parentId path fresh workspace storage parent held kind _ _
      notTrashed noVersion =>
      refine sound.insert fresh workspace storage ?_ ?_
      · intro named equal
        rw [parent] at equal
        obtain rfl := Option.some.inj equal
        exact held.folder
      · rintro (folder | trashed | current)
        · rw [kind] at folder
          cases folder
        · exact absurd notTrashed trashed
        · exact absurd noVersion current
  | shown id row versionId changeSeq path found _ _ =>
    refine (sound.setNode found rfl rfl ?_ (by simp)).raise _ _
    exact fun parentId named => sound.nodeParent found named
  | begun object version upload freshObject freshVersion freshUpload node
      pending itsObject live names sameNode sameWorkspace sameObject nonneg
      _ =>
      exact sound.begun freshObject freshVersion freshUpload node pending
        itsObject live names sameNode sameWorkspace sameObject nonneg
  | readied uploadId row objectId size found live _ _ =>
    exact sound.readied found live objectId size
  | released uploadId row status found live dead =>
    exact sound.released found live dead
  | rebound uploadId row nodeId keyEpoch found live node =>
    exact sound.rebound found live node keyEpoch
  | expired version row objectId size found ready _ _ _ _ _ =>
    exact sound.expired found ready row.workspaceId
  | copied id row objectId size fresh node ready named sized =>
    refine Sound.insertVersion (sound.adjustStorage _ _ _) fresh node
      (by rw [ready]; decide) ?_
    rw [named] at sized
    obtain ⟨object, present, _⟩ := Option.map_eq_some_iff.mp sized
    exact ⟨objectId, object, named, present⟩
  | deleted gone leaves _ _ =>
    exact sound.deleted leaves

theorem trail
    (sound : Sound db)
    {care : Care}
    {after : Database}
    (trail : Trail care db after) :
    Sound after :=
  trail.keeps (fun sound change => Sound.change sound change) sound

end Sound

end Drive

end HushOS
