import HushOS.Drive.Steady

namespace HushOS

open Toolkit OrderedMap

namespace Drive

/-!
# Storage accounting

What a workspace's counters are to be: the sizes of its ready versions'
objects, and what its live uploads reserve.  Each change moves a counter by
what it moves the sum, but for a deletion that takes what is still counted:
then the counter stays above the sum.
-/

/-- A ready version weighs its object's size. -/
def readyWeight (db : Database) (workspaceId : Uuid) (row : Version) : Int :=
  if row.workspaceId = workspaceId ∧ row.status = .ready then
    ((db.sizeOf row.objectId).getD 0 : Int)
  else 0

/-- A live upload weighs what it reserves. -/
def heldWeight (workspaceId : Uuid) (row : Upload) : Int :=
  if row.workspaceId = workspaceId ∧ row.status.live = true then
    row.reservedBytes
  else 0

/-- The sizes of the objects of a workspace's ready versions. -/
def readyBytes (db : Database) (workspaceId : Uuid) : Int :=
  db.versions.total fun _ row => readyWeight db workspaceId row

/-- What a workspace's live uploads reserve. -/
def heldBytes (db : Database) (workspaceId : Uuid) : Int :=
  db.uploads.total fun _ row => heldWeight workspaceId row

/-- A workspace's counter of used bytes. -/
def usedOf (db : Database) (workspaceId : Uuid) : Int :=
  ((db.storage.get? workspaceId).map Storage.usedBytes).getD 0

/-- A workspace's counter of reserved bytes. -/
def reservedOf (db : Database) (workspaceId : Uuid) : Int :=
  ((db.storage.get? workspaceId).map Storage.reservedBytes).getD 0

theorem readyWeight_nonneg
    (db : Database)
    (workspaceId : Uuid)
    (row : Version) :
    0 ≤ readyWeight db workspaceId row := by
  unfold readyWeight
  split
  · omega
  · exact le_refl 0

theorem total_updateById
    {α : Type}
    {table : OrderedMap Uuid α}
    {id : Uuid}
    {row : α}
    (found : table.get? id = some row)
    (change : α → α)
    (weight : Uuid → α → Int) :
    (table.update (byId id) change).total weight =
      table.total weight - weight id row + weight id (change row) := by
  have agree : ∀ other otherRow, table.get? other = some otherRow →
      other ≠ id →
        weight other
          (if byId id other otherRow then change otherRow else otherRow) =
          weight other otherRow := by
    intro other otherRow _ differs
    simp [byId, differs]
  rw [total_update, total_change found agree]
  simp [byId]

section Statements

variable {db : Database}

theorem usedOf_adjustStorage
    {id : Uuid}
    (there : db.storage.has id = true)
    (used reserved : Int)
    (workspaceId : Uuid) :
    usedOf (db.adjustStorage id used reserved) workspaceId =
      usedOf db workspaceId + if workspaceId = id then used else 0 := by
  simp only [usedOf, Database.adjustStorage, get?_updateById]
  by_cases same : workspaceId = id
  · subst same
    obtain ⟨row, found⟩ := Option.isSome_iff_exists.mp there
    simp [found]
  · simp [same]

theorem reservedOf_adjustStorage
    {id : Uuid}
    (there : db.storage.has id = true)
    (used reserved : Int)
    (workspaceId : Uuid) :
    reservedOf (db.adjustStorage id used reserved) workspaceId =
      reservedOf db workspaceId +
        if workspaceId = id then reserved else 0 := by
  simp only [reservedOf, Database.adjustStorage, get?_updateById]
  by_cases same : workspaceId = id
  · subst same
    obtain ⟨row, found⟩ := Option.isSome_iff_exists.mp there
    simp [found]
  · simp [same]

theorem sizeOf_setObject
    (db : Database)
    (id : Uuid)
    {change : StoredObject → StoredObject}
    (sameSize : ∀ row, (change row).ciphertextSize = row.ciphertextSize)
    (named : Option Uuid) :
    (db.setObject id change).sizeOf named = db.sizeOf named := by
  cases named with
  | none => rfl
  | some objectId =>
    simp only [Database.sizeOf, Database.setObject, Option.bind_some,
      get?_updateById]
    split
    · cases db.objects.get? objectId <;> simp [sameSize]
    · rfl

theorem sizeOf_retire
    {id objectId : Uuid}
    {row : Version}
    (found : db.versions.get? id = some row)
    (kept : row.status ≠ .purged) :
    (db.retireObjectIfUnreferenced objectId).sizeOf row.objectId =
      db.sizeOf row.objectId := by
  cases named : row.objectId with
  | none => rfl
  | some itsObject =>
    simp only [Database.sizeOf, Option.bind_some]
    rw [retire_object ⟨id, row, found, named, kept⟩]

/-- Retiring an object leaves the ready bytes. -/
theorem readyBytes_retire (db : Database) (objectId workspaceId : Uuid) :
    readyBytes (db.retireObjectIfUnreferenced objectId) workspaceId =
      readyBytes db workspaceId := by
  have sizes : ∀ id row, db.versions.get? id = some row →
      row.status ≠ .purged →
        (db.retireObjectIfUnreferenced objectId).sizeOf row.objectId =
          db.sizeOf row.objectId := fun _ _ => sizeOf_retire
  rcases retire_cases db objectId with ⟨same, _⟩ | ⟨object, _, free, same⟩
  · rw [same]
  rw [same] at sizes ⊢
  rw [readyBytes, Database.retired, total_update]
  refine total_congr fun id row found => ?_
  by_cases named : row.objectId = some objectId
  · have purged : row.status = .purged := by
      by_contra kept
      exact free ⟨id, row, found, named, kept⟩
    simp [readyWeight, named, purged]
  · simp only [named, decide_false, Bool.false_eq_true, ↓reduceIte,
      readyWeight]
    by_cases ready : row.status = .ready
    · have size := sizes id row found (by rw [ready]; decide)
      simp only [Database.retired] at size
      rw [size]
    · simp [ready]

theorem heldBytes_retire (db : Database) (objectId workspaceId : Uuid) :
    heldBytes (db.retireObjectIfUnreferenced objectId) workspaceId =
      heldBytes db workspaceId := by
  rcases retire_cases db objectId with ⟨same, _⟩ | ⟨object, _, free, same⟩
  · rw [same]
  rw [same, heldBytes, Database.retired, total_update]
  refine total_congr fun id row found => ?_
  by_cases named : row.objectId = some objectId <;>
    simp [heldWeight, named]

theorem storage_retire (db : Database) (objectId : Uuid) :
    (db.retireObjectIfUnreferenced objectId).storage = db.storage := by
  rcases retire_cases db objectId with ⟨same, _⟩ | ⟨object, _, _, same⟩
  · rw [same]
  · rw [same]
    rfl

end Statements

/-- How far a workspace's counters stand above what they count. -/
structure Gap where
  used : Int
  reserved : Int
  deriving DecidableEq

/-- How far a workspace's counters stand above what they count. -/
def gap (db : Database) (workspaceId : Uuid) : Gap where
  used := usedOf db workspaceId - readyBytes db workspaceId
  reserved := reservedOf db workspaceId - heldBytes db workspaceId

theorem gap_retireNamed
    (db : Database)
    (objectId : Option Uuid)
    (workspaceId : Uuid) :
    gap (db.retireNamed objectId) workspaceId = gap db workspaceId := by
  cases objectId with
  | none => rfl
  | some objectId =>
    simp only [gap, Database.retireNamed, readyBytes_retire,
      heldBytes_retire, usedOf, reservedOf, storage_retire]

theorem gap_raise
    (db : Database)
    (path : List Ancestor)
    (leafHeight workspaceId : Nat) :
    gap (raiseHeightBounds db path leafHeight) workspaceId =
      gap db workspaceId := by
  rw [raiseHeightBounds_rest]
  rfl

section Statements

variable {db : Database}

variable {id : Uuid}

theorem gap_adjustStorage
    (there : db.storage.has id = true)
    (used reserved : Int)
    (workspaceId : Uuid) :
    gap (db.adjustStorage id used reserved) workspaceId =
      { used := (gap db workspaceId).used +
          if workspaceId = id then used else 0
        reserved := (gap db workspaceId).reserved +
          if workspaceId = id then reserved else 0 } := by
  have sameReady : readyBytes (db.adjustStorage id used reserved)
      workspaceId = readyBytes db workspaceId :=
    rfl
  have sameHeld : heldBytes (db.adjustStorage id used reserved)
      workspaceId = heldBytes db workspaceId :=
    rfl
  simp only [gap, usedOf_adjustStorage there, reservedOf_adjustStorage there,
    sameReady, sameHeld, Gap.mk.injEq]
  refine ⟨?_, ?_⟩ <;> ring

theorem gap_setVersion
    (row : Version)
    (found : db.versions.get? id = some row)
    (change : Version → Version)
    (workspaceId : Uuid) :
    gap (db.setVersion id change) workspaceId =
      { used := (gap db workspaceId).used + readyWeight db workspaceId row -
          readyWeight db workspaceId (change row)
        reserved := (gap db workspaceId).reserved } := by
  have ready : readyBytes (db.setVersion id change) workspaceId =
      readyBytes db workspaceId - readyWeight db workspaceId row +
        readyWeight db workspaceId (change row) :=
    total_updateById found change _
  have sameUsed : usedOf (db.setVersion id change) workspaceId =
      usedOf db workspaceId :=
    rfl
  simp only [gap, ready, sameUsed, Gap.mk.injEq]
  exact ⟨by ring, rfl⟩

theorem gap_setUpload
    (row : Upload)
    (found : db.uploads.get? id = some row)
    (change : Upload → Upload)
    (workspaceId : Uuid) :
    gap (db.setUpload id change) workspaceId =
      { used := (gap db workspaceId).used
        reserved := (gap db workspaceId).reserved +
          heldWeight workspaceId row -
          heldWeight workspaceId (change row) } := by
  have held : heldBytes (db.setUpload id change) workspaceId =
      heldBytes db workspaceId - heldWeight workspaceId row +
        heldWeight workspaceId (change row) :=
    total_updateById found change _
  have sameReserved : reservedOf (db.setUpload id change) workspaceId =
      reservedOf db workspaceId :=
    rfl
  simp only [gap, held, sameReserved, Gap.mk.injEq]
  exact ⟨rfl, by ring⟩

theorem gap_setObject
    {change : StoredObject → StoredObject}
    {workspaceId : Uuid}
    (sameSize : ∀ row, (change row).ciphertextSize = row.ciphertextSize) :
    gap (db.setObject id change) workspaceId = gap db workspaceId := by
  have ready : readyBytes (db.setObject id change) workspaceId =
      readyBytes db workspaceId :=
    total_congr fun _ row _ => by
      simp only [readyWeight, sizeOf_setObject db id sameSize]
  have sameUsed : usedOf (db.setObject id change) workspaceId =
      usedOf db workspaceId :=
    rfl
  have sameReserved : reservedOf (db.setObject id change) workspaceId =
      reservedOf db workspaceId :=
    rfl
  have sameHeld : heldBytes (db.setObject id change) workspaceId =
      heldBytes db workspaceId :=
    rfl
  simp only [gap, ready, sameUsed, sameReserved, sameHeld]

end Statements

section Changes

variable {db : Database}

variable {id : Uuid} {row : Upload}

theorem Sound.uploadStorage
    (sound : Sound db)
    (found : db.uploads.get? id = some row) :
    db.storage.has row.workspaceId = true := by
  obtain ⟨_, node, nodeFound, inside, _⟩ := sound.uploadRows found
  exact inside ▸ (sound.nodeWorkspace nodeFound).2

theorem Sound.versionStorage
    (sound : Sound db)
    {row : Version}
    (found : db.versions.get? id = some row) :
    db.storage.has row.workspaceId = true := by
  obtain ⟨node, nodeFound, inside⟩ := sound.versionNode found
  exact inside ▸ (sound.nodeWorkspace nodeFound).2

/-- Beginning an upload keeps the gap. -/
theorem gap_begun
    (sound : Sound db)
    {object : Uuid × StoredObject}
    {version : Uuid × Version}
    {upload : Uuid × Upload}
    (freshObject : db.objects.get? object.1 = none)
    (freshVersion : db.versions.get? version.1 = none)
    (freshUpload : db.uploads.get? upload.1 = none)
    (storage : db.storage.has upload.2.workspaceId = true)
    (pending : version.2.status = .pending)
    (live : upload.2.status.live = true)
    (workspaceId : Uuid) :
    gap (db.begun object version upload) workspaceId =
      gap db workspaceId := by
  have ready : readyBytes (db.begun object version upload) workspaceId =
      readyBytes db workspaceId := by
    show (db.versions.set _ _).total _ = _
    rw [total_insert freshVersion]
    have nothing : readyWeight (db.begun object version upload) workspaceId
        version.2 = 0 := by
      simp [readyWeight, pending]
    rw [nothing, add_zero]
    refine total_congr fun id row found => ?_
    unfold readyWeight
    split
    · next counted =>
        obtain ⟨objectId, stored, named, present⟩ :=
          sound.versionObject found (by rw [counted.2]; decide)
        have after : (db.objects.set object.1 object.2).get? objectId =
            some stored :=
          get?_set_of_found freshObject present
        simp [Database.sizeOf, Database.begun, named, present, after]
    · rfl
  have held : heldBytes (db.begun object version upload) workspaceId =
      heldBytes db workspaceId +
        if workspaceId = upload.2.workspaceId then
          upload.2.reservedBytes
        else 0 := by
    show (db.uploads.set _ _).total _ = _
    rw [total_insert freshUpload]
    simp only [heldWeight, live, and_true, eq_comm, heldBytes]
  have used := usedOf_adjustStorage storage 0 upload.2.reservedBytes
    workspaceId
  have reserved := reservedOf_adjustStorage storage 0
    upload.2.reservedBytes workspaceId
  simp only [gap, ready, held, Gap.mk.injEq]
  refine ⟨?_, ?_⟩
  · show usedOf (db.adjustStorage _ _ _) workspaceId - _ = _
    rw [used]
    simp
  · show reservedOf (db.adjustStorage _ _ _) workspaceId - _ = _
    rw [reserved]
    omega

/-- Readying a version keeps the gap. -/
theorem gap_readied
    (sound : Sound db)
    {uploadId : Uuid}
    {objectId size : Nat}
    (found : db.uploads.get? uploadId = some row)
    (live : row.status.live = true)
    (sized : db.sizeOf row.objectId = some size)
    (workspaceId : Uuid) :
    gap (db.readied uploadId row objectId size) workspaceId =
      gap db workspaceId := by
  obtain ⟨version, versionFound, pending, _, itsWorkspace, itsObject⟩ :=
    sound.uploadVersion found live
  have storage := sound.uploadStorage found
  rw [Database.readied, gap_setUpload row, gap_setVersion version,
    gap_setObject, gap_adjustStorage storage]
  · have size : ∀ named, ((db.adjustStorage row.workspaceId size
        (-row.reservedBytes)).setObject objectId fun object =>
          { object with status := .ready }).sizeOf named =
        db.sizeOf named := fun named =>
      sizeOf_setObject _ objectId (by simp) named
    simp only [readyWeight, heldWeight, size, pending, itsWorkspace,
      itsObject, sized, live]
    by_cases same : workspaceId = row.workspaceId
    · simp [same, UploadStatus.live]
    · have differs : ¬ row.workspaceId = workspaceId := fun equal =>
        same equal.symm
      simp [same, differs]
  · exact fun _ => rfl
  · exact versionFound
  · exact found

/-- Releasing an upload keeps the gap. -/
theorem gap_released
    (sound : Sound db)
    {uploadId : Uuid}
    {status : UploadStatus}
    (found : db.uploads.get? uploadId = some row)
    (live : row.status.live = true)
    (workspaceId : Uuid) :
    gap (releaseUpload db uploadId { row with newNode := false } status)
      workspaceId = gap db workspaceId := by
  obtain ⟨version, versionFound, pending, _, _, _⟩ :=
    sound.uploadVersion found live
  have storage := sound.uploadStorage found
  have released : releaseUpload db uploadId { row with newNode := false }
      status =
      (((db.adjustStorage row.workspaceId 0
        (-row.reservedBytes)).purgeVersionRow row.versionId).setUpload
          uploadId fun upload =>
            { upload with status := status, reservedBytes := 0 }).retireNamed
              row.objectId :=
    rfl
  rw [released, gap_retireNamed, gap_setUpload row,
    Database.purgeVersionRow, gap_setVersion version,
    gap_adjustStorage storage]
  · by_cases same : workspaceId = row.workspaceId
    · simp [same, readyWeight, heldWeight, pending, live]
    · have differs : ¬ row.workspaceId = workspaceId := fun equal =>
        same equal.symm
      simp [same, differs, readyWeight, heldWeight, pending]
  · exact versionFound
  · exact found

/-- Purging a ready version keeps the gap. -/
theorem gap_expired
    (sound : Sound db)
    {version : PurgedVersion}
    {row : Version}
    {size : Nat}
    (found : db.versions.get? version.id = some row)
    (ready : row.status = .ready)
    (sized : db.sizeOf row.objectId = some size)
    (itsSize : version.size = some size)
    (workspaceId : Uuid) :
    gap (purgeReady db row.workspaceId version) workspaceId =
      gap db workspaceId := by
  have storage := sound.versionStorage found
  rw [purgeReady, gap_retireNamed, gap_adjustStorage, Database.purgeVersionRow,
    gap_setVersion row]
  · by_cases same : workspaceId = row.workspaceId
    · simp [same, readyWeight, ready, sized, itsSize]
    · have differs : ¬ row.workspaceId = workspaceId := fun equal =>
        same equal.symm
      simp [same, differs, readyWeight]
  · exact found
  · exact storage

/-- Copying a version keeps the gap. -/
theorem gap_copied
    (sound : Sound db)
    {row : Version}
    {target : Node}
    {size : Nat}
    (fresh : db.versions.get? id = none)
    (node : db.nodes.get? row.nodeId = some target)
    (inside : target.workspaceId = row.workspaceId)
    (ready : row.status = .ready)
    (sized : db.sizeOf row.objectId = some size)
    (workspaceId : Uuid) :
    gap (db.copied id row size) workspaceId = gap db workspaceId := by
  have storage : db.storage.has row.workspaceId = true :=
    inside ▸ (sound.nodeWorkspace node).2
  have counted : readyBytes (db.copied id row size) workspaceId =
      readyBytes db workspaceId + readyWeight db workspaceId row :=
    total_insert fresh _ _
  have used : usedOf (db.copied id row size) workspaceId =
      usedOf db workspaceId +
        if workspaceId = row.workspaceId then (size : Int) else 0 :=
    usedOf_adjustStorage storage size 0 workspaceId
  have reserved : reservedOf (db.copied id row size) workspaceId =
      reservedOf db workspaceId +
        if workspaceId = row.workspaceId then 0 else 0 :=
    reservedOf_adjustStorage storage size 0 workspaceId
  have held : heldBytes (db.copied id row size) workspaceId =
      heldBytes db workspaceId :=
    rfl
  simp only [gap, counted, used, reserved, held, readyWeight, ready, sized,
    Gap.mk.injEq]
  by_cases same : workspaceId = row.workspaceId
  · simp [same]
  · have differs : ¬ row.workspaceId = workspaceId := fun equal =>
      same equal.symm
    simp [same, differs]

/-- Opening a workspace keeps the gap. -/
theorem gap_opened
    (workspace : Workspace)
    {storage : Storage}
    (fresh : db.storage.get? id = none)
    (usedNothing : storage.usedBytes = 0)
    (reservedNothing : storage.reservedBytes = 0)
    (workspaceId : Uuid) :
    gap
        { db with
          workspaces := db.workspaces.set id workspace
          storage := db.storage.set id storage } workspaceId =
      gap db workspaceId := by
  have counters : (db.storage.set id storage).get? workspaceId =
      if workspaceId = id then some storage
      else db.storage.get? workspaceId :=
    get?_set _ _ _ _
  have used : usedOf
      { db with
        workspaces := db.workspaces.set id workspace
        storage := db.storage.set id storage } workspaceId =
      usedOf db workspaceId := by
    by_cases same : workspaceId = id
    · rw [if_pos same] at counters
      simp only [usedOf, counters, Option.map_some, usedNothing]
      simp [same, fresh]
    · simp [usedOf, counters, same]
  have reserved : reservedOf
      { db with
        workspaces := db.workspaces.set id workspace
        storage := db.storage.set id storage } workspaceId =
      reservedOf db workspaceId := by
    by_cases same : workspaceId = id
    · rw [if_pos same] at counters
      simp only [reservedOf, counters, Option.map_some, reservedNothing]
      simp [same, fresh]
    · simp [reservedOf, counters, same]
  rw [gap, used, reserved]
  rfl

theorem gap_superseded
    (db : Database)
    (id : Uuid)
    (supersededAt : Option Nat)
    (workspaceId : Uuid) :
    gap (db.setVersion id fun row => { row with supersededAt := supersededAt })
      workspaceId = gap db workspaceId := by
  have ready : readyBytes
      (db.setVersion id fun row => { row with supersededAt := supersededAt })
      workspaceId = readyBytes db workspaceId := by
    rw [readyBytes, Database.setVersion, total_update]
    refine total_congr fun key row _ => ?_
    split
    · rfl
    · rfl
  rw [gap, ready]
  rfl

theorem gap_rebound
    (sound : Sound db)
    {uploadId nodeId keyEpoch : Nat}
    (found : db.uploads.get? uploadId = some row)
    (live : row.status.live = true)
    (workspaceId : Uuid) :
    gap (db.rebound uploadId row.versionId nodeId keyEpoch) workspaceId =
      gap db workspaceId := by
  obtain ⟨version, versionFound, _⟩ := sound.uploadVersion found live
  rw [Database.rebound, gap_setUpload row, gap_setVersion version]
  · simp [heldWeight, readyWeight]
  · exact versionFound
  · exact found

/-- Deleting nodes never makes the gap smaller. -/
theorem gap_deleted
    (sound : Sound db)
    (gone : Uuid → Node → Bool)
    (workspaceId : Uuid) :
    (gap db workspaceId).used ≤
        (gap (db.deleteNodes gone) workspaceId).used ∧
      (gap db workspaceId).reserved ≤
        (gap (db.deleteNodes gone) workspaceId).reserved := by
  have ready : readyBytes (db.deleteNodes gone) workspaceId ≤
      readyBytes db workspaceId := by
    rw [readyBytes, Database.deleteNodes, Database.deleteVersions,
      total_retain]
    refine total_mono fun id row _ => ?_
    split
    · exact le_refl _
    · exact readyWeight_nonneg db workspaceId row
  have held : heldBytes (db.deleteNodes gone) workspaceId ≤
      heldBytes db workspaceId := by
    rw [heldBytes, Database.deleteNodes, Database.deleteVersions,
      total_retain, total_retain]
    refine total_mono fun id row found => ?_
    have nonneg : 0 ≤ heldWeight workspaceId row := by
      unfold heldWeight
      split
      · exact sound.reservedNonneg found
      · exact le_refl 0
    split
    · split
      · exact le_refl _
      · exact nonneg
    · exact nonneg
  have sameUsed : usedOf (db.deleteNodes gone) workspaceId =
      usedOf db workspaceId :=
    rfl
  have sameReserved : reservedOf (db.deleteNodes gone) workspaceId =
      reservedOf db workspaceId :=
    rfl
  simp only [gap, sameUsed, sameReserved]
  omega

/-- Deleting spent nodes keeps the gap. -/
theorem gap_deleted_spent
    (sound : Sound db)
    {gone : Uuid → Node → Bool}
    (spent : ∀ id row, db.nodes.get? id = some row → gone id row = true →
      Spent db id)
    (workspaceId : Uuid) :
    gap (db.deleteNodes gone) workspaceId = gap db workspaceId := by
  have purged : ∀ id row, db.versions.get? id = some row →
      db.nodes.meetsAt gone row.nodeId = true → row.status = .purged := by
    intro id row found dropped
    obtain ⟨node, nodeFound, _⟩ := sound.versionNode found
    rw [meetsAt_of_found nodeFound] at dropped
    exact spent _ node nodeFound dropped id row found rfl
  have ready : readyBytes (db.deleteNodes gone) workspaceId =
      readyBytes db workspaceId := by
    rw [readyBytes, Database.deleteNodes, Database.deleteVersions,
      total_retain]
    refine total_congr fun id row found => ?_
    split
    · rfl
    · next dropped =>
        have status := purged id row found (by simpa using dropped)
        simp [readyWeight, status]
  have held : heldBytes (db.deleteNodes gone) workspaceId =
      heldBytes db workspaceId := by
    rw [heldBytes, Database.deleteNodes, Database.deleteVersions,
      total_retain, total_retain]
    refine total_congr fun id row found => ?_
    by_cases live : row.status.live = true
    · obtain ⟨version, versionFound, pending, itsNode, _⟩ :=
        sound.uploadVersion found live
      have stays : db.nodes.meetsAt gone version.nodeId = false := by
        by_contra dropped
        have status := purged _ version versionFound (by simpa using dropped)
        rw [pending] at status
        exact VersionStatus.noConfusion status
      have left : (db.versions.meetsAt
          (fun _ row => db.nodes.meetsAt gone row.nodeId)
          row.versionId) = false := by
        rw [meetsAt_of_found versionFound]
        exact stays
      rw [itsNode] at stays
      simp [left, stays]
    · simp [heldWeight, live]
  have sameUsed : usedOf (db.deleteNodes gone) workspaceId =
      usedOf db workspaceId :=
    rfl
  have sameReserved : reservedOf (db.deleteNodes gone) workspaceId =
      reservedOf db workspaceId :=
    rfl
  simp only [gap, sameUsed, sameReserved, ready, held]

end Changes

section Trails

variable {care : Care} {db after : Database}

/-- Every change but a deletion of nodes keeps the gap. -/
theorem Change.gap_cases
    (sound : Sound db)
    (change : Change care db after) :
    (∀ workspaceId, gap after workspaceId = gap db workspaceId) ∨
      ∃ gone, after = db.deleteNodes gone ∧
        (care.spares → ∀ id row, db.nodes.get? id = some row →
          gone id row = true → Spent db id) := by
  cases change with
  | workspace => exact .inl fun _ => rfl
  | opened id workspace storage fresh usedNothing reservedNothing =>
    exact .inl fun _ =>
      gap_opened workspace fresh usedNothing reservedNothing _
  | beside => exact .inl fun _ => rfl
  | outbox => exact .inl fun _ => rfl
  | object id change _ sameSize =>
    exact .inl fun _ => gap_setObject sameSize
  | superseded id supersededAt =>
    exact .inl fun _ => gap_superseded db id supersededAt _
  | upload id change row found sameWorkspace _ _ _ sameBytes sameLive =>
    refine .inl fun _ => ?_
    rw [gap_setUpload row found]
    simp [heldWeight, sameWorkspace, sameBytes, sameLive]
  | marked => exact .inl fun _ => rfl
  | placed => exact .inl fun _ => gap_raise _ _ _ _
  | grown => exact .inl fun _ => gap_raise _ _ _ _
  | sprouted => exact .inl fun _ => rfl
  | shown => exact .inl fun _ => gap_raise _ _ _ _
  | begun object version upload freshObject freshVersion freshUpload node
      pending _ live _ _ sameWorkspace _ _ _ =>
      obtain ⟨row, nodeFound, inside, _⟩ := node
      have storage := (sound.nodeWorkspace nodeFound).2
      rw [inside, sameWorkspace] at storage
      exact .inl fun _ => gap_begun sound freshObject freshVersion
        freshUpload storage pending live _
  | readied uploadId row objectId size found live _ sized =>
    exact .inl fun _ => gap_readied sound found live sized _
  | released uploadId row status found live =>
    exact .inl fun _ => gap_released sound found live _
  | rebound uploadId row nodeId keyEpoch found live =>
    exact .inl fun _ => gap_rebound sound found live _
  | expired version row objectId size found ready _ _ sized itsSize =>
    exact .inl fun _ => gap_expired sound found ready sized itsSize _
  | copied id row objectId size fresh node ready _ sized =>
    obtain ⟨target, found, inside⟩ := node
    exact .inl fun _ => gap_copied sound fresh found inside ready sized _
  | deleted gone _ spent _ =>
    exact .inr ⟨gone, rfl, spent⟩

theorem Trail.gap_eq
    (sound : Sound db)
    (trail : Trail care db after)
    (spares : care.spares)
    (workspaceId : Uuid) :
    gap after workspaceId = gap db workspaceId := by
  induction trail with
  | done => rfl
  | more first change inductionHypothesis =>
    rw [← inductionHypothesis]
    have middleSound := sound.trail first
    rcases change.gap_cases middleSound with same | ⟨gone, rfl, spent⟩
    · exact same workspaceId
    · exact gap_deleted_spent middleSound (spent spares) workspaceId

theorem Trail.gap_le
    (sound : Sound db)
    (trail : Trail care db after)
    (workspaceId : Uuid) :
    (gap db workspaceId).used ≤ (gap after workspaceId).used ∧
      (gap db workspaceId).reserved ≤ (gap after workspaceId).reserved := by
  induction trail with
  | done => exact ⟨le_refl _, le_refl _⟩
  | more first change inductionHypothesis =>
    obtain ⟨used, reserved⟩ := inductionHypothesis
    have middleSound := sound.trail first
    rcases change.gap_cases middleSound with same | ⟨gone, rfl, _⟩
    · rw [same]
      exact ⟨used, reserved⟩
    · obtain ⟨moreUsed, moreReserved⟩ :=
        gap_deleted middleSound gone workspaceId
      exact ⟨used.trans moreUsed, reserved.trans moreReserved⟩

end Trails

end Drive

end HushOS
