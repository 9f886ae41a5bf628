import HushOS.Drive.Counting

namespace HushOS

open Toolkit OrderedMap

namespace Drive

/-!
# What is published stays

A ready version stays ready until a write takes it, and every object is named:
its row stands as long as a version that is not purged names it, and the outbox
names it from then on.  Both are proved change by change; what may break them
is a node dropped with more on it than the upload that made it.
-/

section Versions

variable {care : Care} {db after : Database}

/-- Whether a version is ready. -/
def Ready (db : Database) (versionId : Uuid) : Prop :=
  ∃ row, db.versions.get? versionId = some row ∧ row.status = .ready

theorem Ready.stored
    (sound : Sound db)
    {versionId : Uuid}
    (ready : Ready db versionId) :
    ∃ row objectId object, db.versions.get? versionId = some row ∧
      row.status = .ready ∧ row.objectId = some objectId ∧
      db.objects.get? objectId = some object := by
  obtain ⟨row, found, status⟩ := ready
  obtain ⟨objectId, object, named, present⟩ :=
    sound.versionObject found (by rw [status]; decide)
  exact ⟨row, objectId, object, found, status, named, present⟩

theorem ready_of_update
    {id : Uuid}
    {change : Version → Version}
    {versionId : Uuid}
    (stays : ∀ row, row.status = .ready → (change row).status = .ready)
    (ready : Ready db versionId) :
    Ready (db.setVersion id change) versionId := by
  obtain ⟨row, found, status⟩ := ready
  rw [Ready, Database.setVersion, get?_updateById]
  split
  · exact ⟨change row, by rw [found]; rfl, stays row status⟩
  · exact ⟨row, found, status⟩

theorem Ready.purges
    {gone : Uuid → Prop}
    {versionId : Uuid}
    (ready : Ready db versionId)
    (purges : Purges gone db after)
    (alive : ¬ gone versionId) :
    Ready after versionId := by
  obtain ⟨row, found, status⟩ := ready
  exact ⟨row, purges.stays alive found (by rw [status]; decide), status⟩

/-- A change that spares and does not take a version keeps it ready. -/
theorem Change.ready
    (sound : Sound db)
    (change : Change care db after)
    (spares : care.spares)
    {versionId : Uuid}
    (kept : ¬ care.takes versionId)
    (ready : Ready db versionId) :
    Ready after versionId := by
  cases change with
  | workspace => exact ready
  | opened => exact ready
  | beside => exact ready
  | outbox => exact ready
  | object => exact ready
  | superseded => exact ready_of_update (fun _ status => status) ready
  | upload => exact ready
  | marked => exact ready
  | placed =>
    rw [raiseHeightBounds_rest]
    exact ready
  | grown =>
    rw [raiseHeightBounds_rest]
    exact ready
  | sprouted => exact ready
  | shown =>
    rw [raiseHeightBounds_rest]
    exact ready
  | begun object version upload _ freshVersion =>
    obtain ⟨row, found, status⟩ := ready
    exact ⟨row, get?_set_of_found freshVersion found, status⟩
  | readied => exact ready_of_update (fun _ _ => rfl) ready
  | released uploadId row status found live =>
    refine ready.purges (purges_releaseUpload db uploadId row status) ?_
    rintro rfl
    obtain ⟨version, versionFound, pending, _⟩ :=
      sound.uploadVersion found live
    obtain ⟨other, otherFound, isReady⟩ := ready
    rw [versionFound] at otherFound
    obtain rfl := Option.some.inj otherFound
    rw [pending] at isReady
    cases isReady
  | rebound => exact ready_of_update (fun _ status => status) ready
  | expired version row _ _ _ _ _ _ _ _ taken =>
    refine ready.purges (purges_purgeReady db row.workspaceId version) ?_
    rintro rfl
    exact kept taken
  | copied id row _ _ fresh =>
    obtain ⟨other, found, status⟩ := ready
    exact ⟨other, get?_set_of_found fresh found, status⟩
  | deleted gone _ careful =>
    obtain ⟨row, found, status⟩ := ready
    refine ⟨row, version_of_deleted.mpr ⟨found, ?_⟩, status⟩
    obtain ⟨node, nodeFound, _⟩ := sound.versionNode found
    rw [meetsAt_of_found nodeFound]
    cases isGone : gone row.nodeId node with
    | false => rfl
    | true =>
      have purged := careful spares _ node nodeFound isGone versionId row
        found rfl
      rw [status] at purged
      cases purged

theorem Trail.ready
    (sound : Sound db)
    (trail : Trail care db after)
    (spares : care.spares)
    {versionId : Uuid}
    (kept : ¬ care.takes versionId)
    (ready : Ready db versionId) :
    Ready after versionId := by
  induction trail with
  | done => exact ready
  | more first change inductionHypothesis =>
    exact change.ready (sound.trail first) spares kept inductionHypothesis

end Versions

section Objects

variable {care : Care} {db after : Database}

/-- Whether an object's row or its outbox row names a key. -/
def Named (db : Database) (key : ObjectKey) : Prop :=
  (∃ id object, db.objects.get? id = some object ∧ object.objectKey = key) ∨
    ∃ id deletion, db.deletions.get? id = some deletion ∧
      deletion.objectKey = key

/-- Every object's row, and every outbox row, has the key of its id. -/
structure Keyed (keyOf : Uuid → ObjectKey) (db : Database) : Prop where
  object : ∀ {id row}, db.objects.get? id = some row →
    row.objectKey = keyOf id
  deletion : ∀ {id row}, db.deletions.get? id = some row →
    row.objectKey = keyOf id

/-- Every object's row is named by a version that is not purged. -/
def Kept (db : Database) : Prop :=
  ∀ id object, db.objects.get? id = some object → Referenced db id

/-- Objects that go are in the outbox, and what is in the outbox stays there. -/
structure Passes (db after : Database) : Prop where
  object : ∀ {id}, db.objects.has id = true →
    after.objects.has id = true ∨ after.deletions.has id = true
  deletion : ∀ {id}, db.deletions.has id = true →
    after.deletions.has id = true

theorem passes_of_same
    (objects : after.objects = db.objects)
    (deletions : after.deletions = db.deletions) :
    Passes db after :=
  ⟨fun there => .inl (objects ▸ there), fun there => deletions ▸ there⟩

theorem Passes.trans
    {middle : Database}
    (first : Passes db middle)
    (second : Passes middle after) :
    Passes db after where
  object := fun there => by
    rcases first.object there with still | gone
    · exact second.object still
    · exact .inr (second.deletion gone)
  deletion := fun there => second.deletion (first.deletion there)

theorem deletions_retired
    (db : Database)
    (objectId : Uuid)
    (object : StoredObject)
    (id : Uuid) :
    (db.retired objectId object).deletions.has id =
      (decide (id = objectId) || db.deletions.has id) := by
  simp only [Database.retired]
  split
  · next there =>
      by_cases same : id = objectId
      · simp [same, there]
      · simp [same]
  · exact has_set _ _ _ _

/-- A named object that is retired goes to the outbox. -/
theorem passes_retireNamed (db : Database) (named : Option Uuid) :
    Passes db (db.retireNamed named) := by
  cases named with
  | none => exact passes_of_same rfl rfl
  | some objectId =>
    rw [Database.retireNamed]
    rcases retire_cases db objectId with ⟨same, _⟩ | ⟨object, _, _, same⟩
    · rw [same]
      exact passes_of_same rfl rfl
    · rw [same]
      constructor
      · intro id there
        by_cases equal : id = objectId
        · exact .inr (by simp [deletions_retired, equal])
        · refine .inl ?_
          simp only [OrderedMap.has, Database.retired,
            get?_retain] at there ⊢
          obtain ⟨row, found⟩ := Option.isSome_iff_exists.mp there
          simp [found, Option.filter, equal]
      · intro id there
        simp [deletions_retired, there]

/-- Retiring a named object keeps every object under its key. -/
theorem Keyed.retireNamed
    {keyOf : Uuid → ObjectKey}
    (keyed : Keyed keyOf db)
    (named : Option Uuid) :
    Keyed keyOf (db.retireNamed named) := by
  cases named with
  | none => exact keyed
  | some objectId =>
    rw [Database.retireNamed]
    rcases retire_cases db objectId with ⟨same, _⟩ |
      ⟨object, present, _, same⟩
    · rw [same]
      exact keyed
    · rw [same]
      constructor
      · intro id row found
        exact keyed.object (get?_retain_eq_some.mp found).1
      · intro id row found
        simp only [Database.retired] at found
        split at found
        · exact keyed.deletion found
        · rcases get?_set_cases found with
            ⟨equal, isRow⟩ | ⟨_, earlier⟩
          · rw [isRow, equal]
            exact keyed.object present
          · exact keyed.deletion earlier

/-- After the named object is retired every object is referenced. -/
theorem kept_retireNamed
    {named : Option Uuid}
    (others : ∀ id object, db.objects.get? id = some object →
      Referenced db id ∨ named = some id) :
    Kept (db.retireNamed named) := by
  cases named with
  | none =>
    intro id object found
    rcases others id object found with referenced | absent
    · exact referenced
    · cases absent
  | some objectId =>
    have stays : ∀ {id}, Referenced db id →
        Referenced (db.retireNamed (some objectId)) id := by
      rintro id ⟨versionId, row, found, names, unpurged⟩
      exact ⟨versionId, row, (retire_version unpurged).mpr found, names,
        unpurged⟩
    intro id object found
    rcases retire_cases db objectId with ⟨same, reason⟩ |
      ⟨stored, _, _, same⟩
    · rw [Database.retireNamed, same] at found
      rcases others id object found with referenced | isIt
      · exact stays referenced
      · obtain rfl := Option.some.inj isIt
        rcases reason with referenced | absent
        · exact stays referenced
        · rw [absent] at found
          cases found
    · rw [Database.retireNamed, same] at found
      obtain ⟨before, differs⟩ := get?_retain_eq_some.mp found
      rcases others id object before with referenced | isIt
      · exact stays referenced
      · obtain rfl := Option.some.inj isIt
        simp at differs

theorem Referenced.stays
    {objectId : Uuid}
    (referenced : Referenced db objectId)
    (same : ∀ id row, db.versions.get? id = some row →
      row.status ≠ .purged → ∃ later, after.versions.get? id = some later ∧
        later.objectId = row.objectId ∧ later.status ≠ .purged) :
    Referenced after objectId := by
  obtain ⟨id, row, found, names, kept⟩ := referenced
  obtain ⟨later, there, object, unpurged⟩ := same id row found kept
  exact ⟨id, later, there, object.trans names, unpurged⟩

theorem kept_of_purge
    {purgedId : Uuid}
    {row : Version}
    {middle : Database}
    (kept : Kept db)
    (found : db.versions.get? purgedId = some row)
    (purges : Purges (· = purgedId) db middle)
    (objects : middle.objects = db.objects) :
    Kept (middle.retireNamed row.objectId) := by
  refine kept_retireNamed fun id object present => ?_
  rw [objects] at present
  obtain ⟨versionId, other, otherFound, names, unpurged⟩ :=
    kept id object present
  by_cases same : versionId = purgedId
  · subst same
    rw [found] at otherFound
    obtain rfl := Option.some.inj otherFound
    exact .inr names
  · exact .inl ⟨versionId, other,
      purges.stays same otherFound unpurged, names, unpurged⟩

theorem kept_of_stays
    (kept : Kept db)
    (objects : ∀ id, after.objects.has id = true → db.objects.has id = true)
    (same : ∀ id row, db.versions.get? id = some row →
      row.status ≠ .purged → ∃ later, after.versions.get? id = some later ∧
        later.objectId = row.objectId ∧ later.status ≠ .purged) :
    Kept after := by
  intro id object present
  have earlier := objects id (has_of_get? present)
  obtain ⟨row, found⟩ := Option.isSome_iff_exists.mp earlier
  exact (kept id row found).stays same

theorem stays_of_update
    {id : Uuid}
    {change : Version → Version}
    (object : ∀ row, (change row).objectId = row.objectId)
    (status : ∀ row, row.status ≠ .purged → (change row).status ≠ .purged)
    (versionId : Uuid)
    (row : Version)
    (found : db.versions.get? versionId = some row)
    (unpurged : row.status ≠ .purged) :
    ∃ later, (db.setVersion id change).versions.get? versionId = some later ∧
      later.objectId = row.objectId ∧ later.status ≠ .purged := by
  rw [Database.setVersion, get?_updateById]
  split
  · exact ⟨change row, by rw [found]; rfl, object row, status row unpurged⟩
  · exact ⟨row, found, rfl, unpurged⟩

/-- A released upload's rows, before its object is retired. -/
def Database.closed
    (db : Database)
    (uploadId : Uuid)
    (row : Upload)
    (status : UploadStatus) : Database :=
  ((db.adjustStorage row.workspaceId 0 (-row.reservedBytes)).purgeVersionRow
    row.versionId).setUpload uploadId fun upload =>
      { upload with status := status, reservedBytes := 0 }

theorem releaseUpload_closed
    (db : Database)
    (uploadId : Uuid)
    (row : Upload)
    (status : UploadStatus) :
    releaseUpload db uploadId { row with newNode := false } status =
      (db.closed uploadId row status).retireNamed row.objectId :=
  rfl

theorem purges_closed
    (db : Database)
    (uploadId : Uuid)
    (row : Upload)
    (status : UploadStatus) :
    Purges (· = row.versionId) db (db.closed uploadId row status) := by
  have paid : Purges (· = row.versionId) db
      (db.adjustStorage row.workspaceId 0 (-row.reservedBytes)) :=
    purges_of_same rfl rfl rfl
  exact (paid.trans (purges_purgeVersionRow _ row.versionId)).trans
    (purges_of_same rfl rfl rfl)

/-- A sparing change leaves every object referenced. -/
theorem Change.kept
    (sound : Sound db)
    (change : Change care db after)
    (spares : care.spares)
    (kept : Kept db) :
    Kept after := by
  cases change with
  | workspace => exact kept
  | opened => exact kept
  | beside => exact kept
  | outbox => exact kept
  | object id change =>
    refine kept_of_stays kept ?_ fun _ row found unpurged =>
      ⟨row, found, rfl, unpurged⟩
    intro key there
    rwa [Database.setObject, has_update] at there
  | superseded =>
    exact kept_of_stays kept (fun _ there => there)
      (stays_of_update (fun _ => rfl) fun _ unpurged => unpurged)
  | upload => exact kept
  | marked => exact kept
  | placed =>
    rw [raiseHeightBounds_rest]
    exact kept
  | grown =>
    rw [raiseHeightBounds_rest]
    exact kept
  | sprouted => exact kept
  | shown =>
    rw [raiseHeightBounds_rest]
    exact kept
  | begun object version upload _ freshVersion _ _ pending itsObject =>
    intro id row present
    rcases get?_set_cases present with ⟨isNew, _⟩ | ⟨_, earlier⟩
    · refine ⟨version.1, version.2, get?_set_self _ _ _, ?_, ?_⟩
      · rw [isNew]
        exact itsObject
      · rw [pending]
        decide
    · refine (kept id row earlier).stays fun key other found unpurged => ?_
      exact ⟨other, get?_set_of_found freshVersion found, rfl,
        unpurged⟩
  | readied uploadId row objectId size =>
    refine kept_of_stays kept ?_
      (stays_of_update (fun _ => rfl) fun _ _ => by simp)
    intro key there
    have table : (db.readied uploadId row objectId size).objects =
        db.objects.update (byId objectId)
          fun object => { object with status := .ready } :=
      rfl
    rwa [table, has_update] at there
  | released uploadId row status found live =>
    obtain ⟨version, versionFound, _, _, _, sameObject⟩ :=
      sound.uploadVersion found live
    rw [releaseUpload_closed, ← sameObject]
    exact kept_of_purge kept versionFound (purges_closed _ _ _ _) rfl
  | rebound =>
    exact kept_of_stays kept (fun _ there => there)
      (stays_of_update (fun _ => rfl) fun _ unpurged => unpurged)
  | expired version row objectId size found ready named itsObject =>
    rw [purgeReady, itsObject]
    exact kept_of_purge kept found
      ((purges_purgeVersionRow db version.id).trans
        (purges_of_same rfl rfl rfl)) rfl
  | copied id row objectId size fresh =>
    refine kept_of_stays kept (fun _ there => there)
      fun key other found unpurged => ?_
    exact ⟨other, get?_set_of_found fresh found, rfl, unpurged⟩
  | deleted gone _ careful =>
    refine kept_of_stays kept (fun _ there => there)
      fun key other found unpurged => ?_
    refine ⟨other, version_of_deleted.mpr ⟨found, ?_⟩, rfl, unpurged⟩
    obtain ⟨node, nodeFound, _⟩ := sound.versionNode found
    rw [meetsAt_of_found nodeFound]
    cases isGone : gone other.nodeId node with
    | false => rfl
    | true =>
      exact absurd
        (careful spares _ node nodeFound isGone key other found rfl)
        unpurged

/-- A change keeps every object under its key. -/
theorem Change.keyed
    {keyOf : Uuid → ObjectKey}
    (change : Change care db after)
    (made : ∀ id key, care.stores id key → key = keyOf id)
    (keyed : Keyed keyOf db) :
    Keyed keyOf after := by
  cases change with
  | workspace => exact ⟨keyed.object, keyed.deletion⟩
  | opened => exact ⟨keyed.object, keyed.deletion⟩
  | beside => exact ⟨keyed.object, keyed.deletion⟩
  | outbox id change sameKey =>
    refine ⟨keyed.object, fun {key row} found => ?_⟩
    rw [get?_updateById] at found
    split at found
    · obtain ⟨before, earlier, rfl⟩ := Option.map_eq_some_iff.mp found
      rw [sameKey, keyed.deletion earlier]
    · exact keyed.deletion found
  | object id change sameKey =>
    refine ⟨fun {key row} found => ?_, keyed.deletion⟩
    rw [Database.setObject, get?_updateById] at found
    split at found
    · obtain ⟨before, earlier, rfl⟩ := Option.map_eq_some_iff.mp found
      rw [sameKey, keyed.object earlier]
    · exact keyed.object found
  | superseded => exact ⟨keyed.object, keyed.deletion⟩
  | upload => exact ⟨keyed.object, keyed.deletion⟩
  | marked => exact ⟨keyed.object, keyed.deletion⟩
  | placed =>
    rw [raiseHeightBounds_rest]
    exact ⟨keyed.object, keyed.deletion⟩
  | grown =>
    rw [raiseHeightBounds_rest]
    exact ⟨keyed.object, keyed.deletion⟩
  | sprouted => exact ⟨keyed.object, keyed.deletion⟩
  | shown =>
    rw [raiseHeightBounds_rest]
    exact ⟨keyed.object, keyed.deletion⟩
  | begun object version upload _ _ _ _ _ _ _ _ _ _ _ _ stored =>
    refine ⟨fun {key row} found => ?_, keyed.deletion⟩
    rcases get?_set_cases found with ⟨rfl, rfl⟩ | ⟨_, earlier⟩
    · exact made _ _ stored
    · exact keyed.object earlier
  | readied uploadId upload objectId size =>
    refine ⟨fun {key row} found => ?_, keyed.deletion⟩
    have table : (db.readied uploadId upload objectId size).objects =
        db.objects.update (byId objectId)
          fun object => { object with status := .ready } :=
      rfl
    rw [table, get?_updateById] at found
    split at found
    · obtain ⟨before, earlier, equal⟩ := Option.map_eq_some_iff.mp found
      rw [← equal]
      exact (keyed.object earlier : before.objectKey = _)
    · exact keyed.object found
  | released uploadId row status =>
    rw [releaseUpload_closed]
    have closed : Keyed keyOf (db.closed uploadId row status) :=
      ⟨keyed.object, keyed.deletion⟩
    exact closed.retireNamed _
  | rebound => exact ⟨keyed.object, keyed.deletion⟩
  | expired version row =>
    rw [purgeReady]
    have purged : Keyed keyOf
        ((db.purgeVersionRow version.id).adjustStorage row.workspaceId
          (-(version.size.getD 0 : Int)) 0) :=
      ⟨keyed.object, keyed.deletion⟩
    exact purged.retireNamed _
  | copied => exact ⟨keyed.object, keyed.deletion⟩
  | deleted => exact ⟨keyed.object, keyed.deletion⟩

/-- An object that a change takes goes to the outbox. -/
theorem Change.passes (change : Change care db after) : Passes db after := by
  cases change with
  | workspace => exact passes_of_same rfl rfl
  | opened => exact passes_of_same rfl rfl
  | beside => exact passes_of_same rfl rfl
  | outbox =>
    exact ⟨fun there => .inl there, fun there => by rwa [has_update]⟩
  | object =>
    refine ⟨fun there => .inl ?_, fun there => there⟩
    rwa [Database.setObject, has_update]
  | superseded => exact passes_of_same rfl rfl
  | upload => exact passes_of_same rfl rfl
  | marked => exact passes_of_same rfl rfl
  | placed =>
    rw [raiseHeightBounds_rest]
    exact passes_of_same rfl rfl
  | grown =>
    rw [raiseHeightBounds_rest]
    exact passes_of_same rfl rfl
  | sprouted => exact passes_of_same rfl rfl
  | shown =>
    rw [raiseHeightBounds_rest]
    exact passes_of_same rfl rfl
  | begun object =>
    refine ⟨fun {id} there => .inl ?_, fun there => there⟩
    have table : (db.objects.set object.1 object.2).has id = true := by
      rw [has_set, there, Bool.or_true]
    exact table
  | readied uploadId upload objectId size =>
    refine ⟨fun {id} there => .inl ?_, fun there => there⟩
    have table : (db.readied uploadId upload objectId size).objects =
        db.objects.update (byId objectId)
          fun object => { object with status := .ready } :=
      rfl
    rwa [table, has_update]
  | released uploadId row status =>
    rw [releaseUpload_closed]
    have closed : Passes db (db.closed uploadId row status) :=
      passes_of_same rfl rfl
    exact closed.trans (passes_retireNamed _ _)
  | rebound => exact passes_of_same rfl rfl
  | expired version row =>
    rw [purgeReady]
    have purged : Passes db
        ((db.purgeVersionRow version.id).adjustStorage row.workspaceId
          (-(version.size.getD 0 : Int)) 0) :=
      passes_of_same rfl rfl
    exact purged.trans (passes_retireNamed _ _)
  | copied => exact passes_of_same rfl rfl
  | deleted => exact passes_of_same rfl rfl

theorem Trail.passes (trail : Trail care db after) : Passes db after := by
  induction trail with
  | done => exact passes_of_same rfl rfl
  | more _ change inductionHypothesis =>
    exact inductionHypothesis.trans change.passes

theorem Trail.keyed
    {keyOf : Uuid → ObjectKey}
    (trail : Trail care db after)
    (made : ∀ id key, care.stores id key → key = keyOf id)
    (keyed : Keyed keyOf db) :
    Keyed keyOf after := by
  induction trail with
  | done => exact keyed
  | more _ change inductionHypothesis =>
    exact change.keyed made inductionHypothesis

theorem Trail.kept
    (sound : Sound db)
    (trail : Trail care db after)
    (spares : care.spares)
    (kept : Kept db) :
    Kept after := by
  induction trail with
  | done => exact kept
  | more first change inductionHypothesis =>
    exact change.kept (sound.trail first) spares inductionHypothesis

theorem Keyed.named
    {keyOf : Uuid → ObjectKey}
    (keyed : Keyed keyOf db)
    {id : Uuid}
    (there : db.objects.has id = true ∨ db.deletions.has id = true) :
    Named db (keyOf id) := by
  rcases there with there | there
  · obtain ⟨object, found⟩ := Option.isSome_iff_exists.mp there
    exact .inl ⟨id, object, found, keyed.object found⟩
  · obtain ⟨deletion, found⟩ := Option.isSome_iff_exists.mp there
    exact .inr ⟨id, deletion, found, keyed.deletion found⟩

theorem Kept.stored
    (sound : Sound db)
    (kept : Kept db)
    (id : Uuid) :
    db.objects.has id = true ↔ Referenced db id := by
  constructor
  · intro there
    obtain ⟨object, found⟩ := Option.isSome_iff_exists.mp there
    exact kept id object found
  · rintro ⟨versionId, row, found, names, unpurged⟩
    obtain ⟨objectId, object, itsObject, present⟩ :=
      sound.versionObject found unpurged
    rw [names] at itsObject
    obtain rfl := Option.some.inj itsObject
    exact has_of_get? present

end Objects

section Visible

variable {care : Care} {db after : Database}

/-- Whether a node is there for people to see. -/
def Visible (db : Database) (nodeId : Uuid) : Prop :=
  ∃ row, db.nodes.get? nodeId = some row ∧ row.seen

theorem visible_of_update
    {id nodeId : Uuid}
    {change : Node → Node}
    (stays : ∀ row, db.nodes.get? id = some row → row.seen →
      (change row).seen)
    (visible : Visible db nodeId) :
    Visible (db.setNode id change) nodeId := by
  obtain ⟨row, found, seen⟩ := visible
  rw [Visible, Database.setNode, get?_updateById]
  split
  · next same =>
      exact ⟨change row, by rw [found]; rfl, stays row (same ▸ found) seen⟩
  · exact ⟨row, found, seen⟩

theorem visible_raise
    {path : List Ancestor}
    {leafHeight nodeId : Nat}
    (visible : Visible db nodeId) :
    Visible (raiseHeightBounds db path leafHeight) nodeId := by
  obtain ⟨row, found, seen⟩ := visible
  rw [Visible, get?_raiseHeightBounds, found]
  exact ⟨_, rfl, seen⟩

/-- A change that does not bury a node keeps it visible. -/
theorem Change.visible
    (change : Change care db after)
    (hides : care.hides)
    {nodeId : Uuid}
    (kept : ¬ care.buries nodeId)
    (visible : Visible db nodeId) :
    Visible after nodeId := by
  cases change with
  | workspace => exact visible
  | opened => exact visible
  | beside => exact visible
  | outbox => exact visible
  | object => exact visible
  | superseded => exact visible
  | upload => exact visible
  | marked change marks =>
    obtain ⟨row, found, seen⟩ := visible
    refine ⟨change nodeId row, ?_, (marks nodeId row found).shown seen.1, ?_⟩
    · rw [get?_mapEntries, found]
      rfl
    · rcases (marks nodeId row found).purged with same | buried
      · exact same.trans seen.2
      · exact absurd buried kept
  | placed id row change _ _ found _ _ _ _ _ _ _ _ _ samePurged shown =>
    refine visible_raise (visible_of_update ?_ visible)
    intro other otherFound seen
    rw [found] at otherFound
    obtain rfl := Option.some.inj otherFound
    exact ⟨shown, samePurged.trans seen.2⟩
  | grown id row path fresh =>
    obtain ⟨other, found, seen⟩ := visible
    exact visible_raise
      ⟨other, get?_set_of_found fresh found, seen⟩
  | sprouted id row parentId path fresh =>
    obtain ⟨other, found, seen⟩ := visible
    exact ⟨other, get?_set_of_found fresh found, seen⟩
  | shown =>
    exact visible_raise
      (visible_of_update (fun _ _ seen => ⟨by simp, seen.2⟩) visible)
  | begun => exact visible
  | readied => exact visible
  | released uploadId row status =>
    have purges := purges_releaseUpload db uploadId row status
    rw [Visible, purges.nodes]
    exact visible
  | rebound => exact visible
  | expired version row =>
    rw [Visible, (purges_purgeReady db row.workspaceId version).nodes]
    exact visible
  | copied => exact visible
  | deleted gone _ _ hidden =>
    obtain ⟨row, found, seen⟩ := visible
    have stays : gone nodeId row = false := by
      cases isGone : gone nodeId row with
      | false => rfl
      | true => exact absurd seen (hidden hides nodeId row found isGone)
    obtain ⟨later, left, equal | equal⟩ := deleted_of_node found stays
    · exact ⟨later, left, by rw [equal]; exact seen⟩
    · exact ⟨later, left, by rw [equal]; exact seen⟩

theorem Trail.visible
    (trail : Trail care db after)
    (hides : care.hides)
    {nodeId : Uuid}
    (kept : ¬ care.buries nodeId)
    (visible : Visible db nodeId) :
    Visible after nodeId := by
  induction trail with
  | done => exact visible
  | more _ change inductionHypothesis =>
    exact change.visible hides kept inductionHypothesis

end Visible

end Drive

end HushOS
