import HushOS.Drive.Runs

namespace HushOS

open Toolkit OrderedMap

namespace Drive

/-!
# Sound tables

What holds between rows in every state a run reaches: the foreign keys of the
schema, and that a pending version and its live upload name each other, their
node and their object.  Each is stated once here; the lemmas say what the
statements of the writes leave in every table.
-/

/-- How the rows of sound tables name each other. -/
structure Sound (db : Database) : Prop where
  /-- Every workspace has its counters. -/
  workspaceStorage : ∀ {id}, db.workspaces.has id = true →
    db.storage.has id = true
  /-- Every node's workspace has its row and its counters. -/
  nodeWorkspace : ∀ {id row}, db.nodes.get? id = some row →
    db.workspaces.has row.workspaceId = true ∧
      db.storage.has row.workspaceId = true
  /-- Every parent is a folder of the same workspace, and was shown. -/
  nodeParent : ∀ {id row parentId}, db.nodes.get? id = some row →
    row.parentId = some parentId →
      ∃ parent, db.nodes.get? parentId = some parent ∧
        parent.kind = .folder ∧ parent.workspaceId = row.workspaceId ∧
        parent.changeSeq ≠ none
  /-- Every version stands on a node of its workspace. -/
  versionNode : ∀ {id row}, db.versions.get? id = some row →
    ∃ node, db.nodes.get? row.nodeId = some node ∧
      node.workspaceId = row.workspaceId
  /-- Every version that is not purged has its object. -/
  versionObject : ∀ {id row}, db.versions.get? id = some row →
    row.status ≠ .purged →
      ∃ objectId object, row.objectId = some objectId ∧
        db.objects.get? objectId = some object
  /-- Every upload names a version and a file that are there. -/
  uploadRows : ∀ {id row}, db.uploads.get? id = some row →
    (∃ version, db.versions.get? row.versionId = some version) ∧
      ∃ node, db.nodes.get? row.nodeId = some node ∧
        node.workspaceId = row.workspaceId ∧ node.kind = .file
  /-- A version was begun by one upload. -/
  uploadOne : ∀ {id other row otherRow},
    db.uploads.get? id = some row →
    db.uploads.get? other = some otherRow →
    row.versionId = otherRow.versionId → id = other
  /-- A live upload's version is pending, on its node, with its object. -/
  uploadVersion : ∀ {id row}, db.uploads.get? id = some row →
    row.status.live = true →
      ∃ version, db.versions.get? row.versionId = some version ∧
        version.status = .pending ∧ version.nodeId = row.nodeId ∧
        version.workspaceId = row.workspaceId ∧
        version.objectId = row.objectId
  /-- A pending version has its live upload. -/
  pendingUpload : ∀ {id row}, db.versions.get? id = some row →
    row.status = .pending →
      ∃ uploadId upload, db.uploads.get? uploadId = some upload ∧
        upload.versionId = id ∧ upload.status.live = true
  /-- No upload reserves less than nothing. -/
  reservedNonneg : ∀ {id row}, db.uploads.get? id = some row →
    0 ≤ row.reservedBytes
  /-- A folder, and what is in the trash or has a current version, was shown. -/
  shown : ∀ {id row}, db.nodes.get? id = some row →
    row.kind = .folder ∨ row.trashedAt ≠ none ∨
        row.currentVersionId ≠ none →
      row.changeSeq ≠ none

theorem sound_empty : Sound .empty where
  workspaceStorage := fun there => nomatch there
  nodeWorkspace := fun found => nomatch found
  nodeParent := fun found => nomatch found
  versionNode := fun found => nomatch found
  versionObject := fun found => nomatch found
  uploadRows := fun found => nomatch found
  uploadOne := fun found => nomatch found
  uploadVersion := fun found => nomatch found
  pendingUpload := fun found => nomatch found
  reservedNonneg := fun found => nomatch found
  shown := fun found => nomatch found

section Statements

theorem get?_updateById
    (table : OrderedMap Uuid α)
    (id key : Uuid)
    (change : α → α) :
    (table.update (byId id) change).get? key =
      if key = id then (table.get? key).map change else table.get? key := by
  rw [get?_update]
  by_cases same : key = id
  · simp [byId, same]
  · simp [byId, same]

theorem has_update
    (table : OrderedMap Uuid α)
    (meets : Uuid → α → Bool)
    (change : α → α)
    (key : Uuid) :
    (table.update meets change).has key = table.has key := by
  simp [OrderedMap.has, get?_update]

theorem has_set
    (table : OrderedMap Uuid α)
    (id key : Uuid)
    (row : α) :
    (table.set id row).has key = (decide (key = id) || table.has key) := by
  simp only [OrderedMap.has, get?_set]
  by_cases same : key = id
  · simp [same]
  · simp [same]

theorem has_eq_false
    {table : OrderedMap Uuid α}
    {key : Uuid} :
    table.has key = false ↔ table.get? key = none := by
  simp [OrderedMap.has]

theorem has_of_get?
    {table : OrderedMap Uuid α}
    {key : Uuid}
    {row : α}
    (found : table.get? key = some row) :
    table.has key = true := by
  simp [OrderedMap.has, found]

end Statements

section Raising

/-- How high a path over a leaf asks a node to be: nothing off the path. -/
def reach (leafHeight : Nat) (id : Uuid) : List Ancestor → Nat
  | [] => 0
  | ancestor :: below =>
    max
      (if ancestor.id = id then below.length + 1 + leafHeight else 0)
      (reach leafHeight id below)

theorem raiseHeightBounds_rest
    (db : Database)
    (path : List Ancestor)
    (leafHeight : Nat) :
    raiseHeightBounds db path leafHeight =
      { db with nodes := (raiseHeightBounds db path leafHeight).nodes } := by
  induction path generalizing db with
  | nil =>
    rfl
  | cons ancestor below inductionHypothesis =>
    rw [raiseHeightBounds, inductionHypothesis]
    rfl

/-- Raising along a path lifts each bound to the reach there. -/
theorem get?_raiseHeightBounds
    (db : Database)
    (path : List Ancestor)
    (leafHeight : Nat)
    (id : Uuid) :
    (raiseHeightBounds db path leafHeight).nodes.get? id =
      (db.nodes.get? id).map fun row =>
        { row with
          heightBound := max row.heightBound (reach leafHeight id path) } := by
  induction path generalizing db with
  | nil =>
    cases found : db.nodes.get? id <;>
      simp [raiseHeightBounds, reach, found]
  | cons ancestor below inductionHypothesis =>
    rw [raiseHeightBounds, inductionHypothesis, raiseAt,
      Database.setNode, get?_updateById]
    by_cases same : id = ancestor.id
    · subst same
      cases db.nodes.get? ancestor.id with
      | none =>
        simp
      | some row =>
        simp only [↓reduceIte, Option.map_some, reach,
          Option.some.injEq]
        split
        · next lower =>
            simp only [Node.mk.injEq, true_and, and_true]
            omega
        · next higher =>
            simp only [Node.mk.injEq, true_and, and_true]
            omega
    · have differs : ¬ ancestor.id = id := fun equal => same equal.symm
      simp [same, reach, differs]

end Raising

section Retiring

/-- Whether some version that is not purged names an object. -/
def Referenced (db : Database) (objectId : Uuid) : Prop :=
  ∃ id row, db.versions.get? id = some row ∧
    row.objectId = some objectId ∧ row.status ≠ .purged

/-- The tables once an object is retired. -/
def Database.retired
    (db : Database)
    (objectId : Uuid)
    (object : StoredObject) : Database :=
  { db with
    objects := db.objects.retain fun id _ => id ≠ objectId
    versions := db.versions.update
      (fun _ row => row.objectId = some objectId)
      fun row => { row with objectId := none }
    uploads := db.uploads.update
      (fun _ row => row.objectId = some objectId)
      fun row => { row with objectId := none }
    deletions :=
      if db.deletions.has objectId then
        db.deletions
      else
        db.deletions.set objectId
          { workspaceId := object.workspaceId
            objectKey := object.objectKey
            published := object.status = .ready
            replicated := object.replicatedAt.isSome } }

/-- An object is retired only when it is there and unreferenced. -/
theorem retire_cases (db : Database) (objectId : Uuid) :
    (db.retireObjectIfUnreferenced objectId = db ∧
      (Referenced db objectId ∨ db.objects.get? objectId = none)) ∨
    ∃ object, db.objects.get? objectId = some object ∧
      ¬ Referenced db objectId ∧
      db.retireObjectIfUnreferenced objectId =
        db.retired objectId object := by
  unfold Database.retireObjectIfUnreferenced
  split
  · next referenced =>
      obtain ⟨id, row, found, meets⟩ :=
        exists_eq_true.mp referenced
      refine .inl ⟨rfl, .inl ⟨id, row, found, ?_⟩⟩
      simpa using meets
  · next unreferenced =>
      have free : ¬ Referenced db objectId := by
        rintro ⟨id, row, found, named, kept⟩
        refine unreferenced (exists_eq_true.mpr
          ⟨id, row, found, ?_⟩)
        simp [named, kept]
      cases present : db.objects.get? objectId with
      | none =>
        exact .inl ⟨by simp, .inr rfl⟩
      | some object =>
        exact .inr ⟨object, rfl, free, rfl⟩

/-- Retiring an object touches no version that is kept. -/
theorem retire_version
    {db : Database}
    {objectId id : Uuid}
    {row : Version}
    (kept : row.status ≠ .purged) :
    (db.retireObjectIfUnreferenced objectId).versions.get? id = some row ↔
      db.versions.get? id = some row := by
  rcases retire_cases db objectId with ⟨same, _⟩ | ⟨object, _, free, same⟩
  · rw [same]
  · rw [same]
    simp only [Database.retired, get?_update]
    constructor
    · intro found
      cases before : db.versions.get? id with
      | none =>
        simp [before] at found
      | some earlier =>
        rw [before] at found
        simp only [Option.map_some, Option.some.injEq] at found
        by_cases named : earlier.objectId = some objectId
        · have status : earlier.status = row.status := by
            rw [← found]
            simp [named]
          exact absurd ⟨id, earlier, before, named, status ▸ kept⟩ free
        · simpa [named] using found
    · intro found
      have named : ¬ row.objectId = some objectId := fun named =>
        free ⟨id, row, found, named, kept⟩
      simp [found, named]

theorem retire_object
    {db : Database}
    {objectId named : Uuid}
    (referenced : Referenced db named) :
    (db.retireObjectIfUnreferenced objectId).objects.get? named =
      db.objects.get? named := by
  rcases retire_cases db objectId with ⟨same, _⟩ | ⟨object, _, free, same⟩
  · rw [same]
  · rw [same]
    have differs : named ≠ objectId := fun equal => free (equal ▸ referenced)
    cases found : db.objects.get? named <;>
      simp [Database.retired, found, differs]

end Retiring

end Drive

end HushOS
