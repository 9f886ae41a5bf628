import HushOS.Groups.Agreement
import HushOS.Groups.Folders

namespace HushOS

open Toolkit List OrderedMap

namespace Groups

/-!
# The folders are the chain's areas

A folder is live exactly where the stored chain lists it and has not retired
it, at the version of the last key row the chain has for it.  What a call
checked of its rows outside the lock holds under it, since the chain has not
moved; and a rotation moves the folder, its root and its documents at once.
-/

/-- A folder of the group that is not deleted. -/
def Folders.Live (folders : Folders) (workspaceId : String) (area : Area) :
    Prop :=
  folders.areas.get? workspaceId = some area ∧ area.deleted = false

/-- A live folder at its chain's version, with its root and self-grants. -/
structure Keyed (rows : List RosterArea) (workspaceId : String) (area : Area) :
    Prop where
  version : (keyRowsOf workspaceId rows).getLast?.map
      RosterArea.workspaceKeyVersion =
    some area.workspaceKeyVersion
  root : area.root.parentKeyEpoch = area.workspaceKeyVersion
  selfGrants : ∀ userId version, area.selfGrants.get? userId = some version →
    version ≤ area.workspaceKeyVersion

/-- The live folders are the areas the stored chain lists. -/
structure Filed (folders : Folders) : Prop where
  listed : ∀ workspaceId, (∃ area, folders.Live workspaceId area) ↔
    workspaceId ∈ liveAreas folders.ledger
  keyed : ∀ workspaceId area, folders.Live workspaceId area →
    Keyed folders.rows workspaceId area

/-- What a rotation leaves of its folder. -/
structure Rotated (before after : Area) (given : RotationInput) : Prop where
  lives : before.deleted = false
  live : after.deleted = false
  replaced : before.workspaceKeyVersion = given.fromVersion
  version : after.workspaceKeyVersion = given.toVersion
  next : given.toVersion = before.workspaceKeyVersion + 1
  rootId : after.root.id = before.root.id
  rootKey : before.root.keyEpoch < after.root.keyEpoch
  epoch : after.root.keyEpoch = given.targetEpoch
  envelope : after.root.keyEnvelope = given.rootKeyEnvelope
  parent : after.root.parentKeyEpoch = given.toVersion
  previous : after.root.prevKeyEnvelope = some given.previousRootKeyEnvelope
  previousKey : after.root.prevKeyEpoch = some before.root.keyEpoch
  previousParent : after.root.prevParentKeyEpoch = some given.toVersion
  selfGrants : ∀ userId version, after.selfGrants.get? userId = some version →
    before.selfGrants.get? userId = some version ∨ version = given.toVersion
  running : after.running =
    some { nodeId := before.root.id, targetEpoch := given.targetEpoch }
  resealed : after.documents =
    (resealDocuments before given.documents).documents

/-- A folder's documents, each sealed again at the next version. -/
structure Resealed (before : Area) (given : RotationInput) : Prop where
  each : ∀ kind stored, before.documents.get? kind = some stored →
    ∃ document ∈ given.documents, document.kind = kind ∧
      document.version = stored.version ∧
      (resealDocuments before given.documents).documents.get? kind =
        some { version := stored.version + 1, envelope := document.envelope }
  no_other : ∀ kind, before.documents.get? kind = none →
    (resealDocuments before given.documents).documents.get? kind = none

section

variable {folders after : Folders}

theorem live_of_liveArea
    {workspaceId reason : String}
    {area : Area}
    (found : liveArea folders workspaceId reason = .ok area) :
    folders.Live workspaceId area := by
  unfold liveArea at found
  split at found
  · next other is =>
      split at found
      · cases found
      · next undeleted =>
          rw [Except.ok.injEq] at found
          subst found
          exact ⟨is, Bool.not_eq_true _ ▸ undeleted⟩
  · cases found

/-- A rotation applied rotates its area alone. -/
theorem rotated_of_applyRotation
    {uploader : String}
    {given : RotationInput}
    (applied : applyRotation uploader folders given = .ok after) :
    ∃ before area, folders.areas.get? given.workspaceId = some before ∧
      Rotated before area given ∧
      after = { folders with
        areas := folders.areas.set given.workspaceId area } := by
  simp only [applyRotation, startByRoster, rotateRoot, bind_eq_ok,
    exists_unit, refuseIf_eq_ok, Except.ok.injEq] at applied
  obtain ⟨before, found, versions, grant, shape, rootId, started,
    ⟨_, fresh, rfl⟩, _, moved, ⟨_, _, rekeys, rfl⟩, rfl⟩ := applied
  obtain ⟨is, live⟩ := live_of_liveArea found
  simp only [not_or, not_not, Bool.not_eq_false, not_lt, not_le] at *
  obtain ⟨fromSame, toNext⟩ := versions
  obtain ⟨rotated, parent⟩ := shape
  refine ⟨before, _, is, ?_, rfl⟩
  have newer : before.root.keyEpoch < given.targetEpoch := by
    rw [rotated] at rekeys
    simpa using rekeys
  exact {
    lives := live
    live := live
    replaced := fromSame
    version := rfl
    next := by rw [toNext, fromSame]
    rootId := rfl
    rootKey := newer
    epoch := rfl
    envelope := rfl
    parent := parent
    previous := rfl
    previousKey := rfl
    previousParent := rfl
    selfGrants := by
      intro userId version stored
      rcases get?_set_cases stored with ⟨_, is⟩ | ⟨_, before⟩
      · exact .inr (is.trans grant)
      · exact .inl before
    running := rfl
    resealed := rfl }

/-- Rotations in turn rotate each of their areas and no other. -/
theorem rotated_of_foldEach
    {uploader : String}
    {rotations : List RotationInput}
    (distinct : (rotations.map RotationInput.workspaceId).Nodup)
    (applied : foldEach (applyRotation uploader) folders rotations =
      .ok after) :
    (∃ areas, after = { folders with areas }) ∧
      (∀ workspaceId,
        workspaceId ∉ rotations.map RotationInput.workspaceId →
          after.areas.get? workspaceId = folders.areas.get? workspaceId) ∧
      ∀ given ∈ rotations, ∃ before area,
        folders.areas.get? given.workspaceId = some before ∧
          after.areas.get? given.workspaceId = some area ∧
            Rotated before area given := by
  induction rotations generalizing folders with
  | nil =>
    simp only [foldEach, Except.ok.injEq] at applied
    subst applied
    exact ⟨⟨_, rfl⟩, fun _ _ => rfl, by simp⟩
  | cons given rest inductionHypothesis =>
    rw [map_cons, nodup_cons] at distinct
    simp only [foldEach, bind_eq_ok] at applied
    obtain ⟨middle, first, later⟩ := applied
    obtain ⟨before, area, found, rotated, rfl⟩ :=
      rotated_of_applyRotation first
    obtain ⟨⟨areas, rfl⟩, others, each⟩ :=
      inductionHypothesis distinct.2 later
    have own : areas.get? given.workspaceId = some area := by
      rw [show areas.get? given.workspaceId = _ from
        others given.workspaceId distinct.1]
      rw [get?_set, if_pos rfl]
    refine ⟨⟨areas, rfl⟩, ?_, ?_⟩
    · intro workspaceId unlisted
      rw [map_cons, mem_cons, not_or] at unlisted
      rw [others workspaceId unlisted.2]
      exact (get?_set _ _ _ _).trans (if_neg unlisted.1)
    · intro one member
      rcases mem_cons.mp member with rfl | inRest
      · exact ⟨before, area, found, own, rotated⟩
      · obtain ⟨was, is, foundThere, there, rotatedThere⟩ := each one inRest
        refine ⟨was, is, ?_, there, rotatedThere⟩
        have differs : one.workspaceId ≠ given.workspaceId := by
          intro same
          exact distinct.1 (same ▸ mem_map_of_mem inRest)
        rw [← foundThere]
        exact ((get?_set _ _ _ _).trans (if_neg differs)).symm

end

section

variable {rows : List RosterArea}

/-- Where one row alone meets a test, the filter is that row. -/
theorem filter_eq_singleton
    (distinct : (rows.map RosterArea.workspaceId).Nodup)
    {row : RosterArea}
    (member : row ∈ rows)
    {meets : RosterArea → Bool}
    (met : meets row = true)
    (only : ∀ other ∈ rows, meets other = true →
      other.workspaceId = row.workspaceId) :
    rows.filter meets = [row] := by
  have all : ∀ other ∈ rows.filter meets, other = row := by
    intro other inFilter
    obtain ⟨inRows, meetsOther⟩ := mem_filter.mp inFilter
    exact inj_on_of_nodup_map distinct inRows member
      (only other inRows meetsOther)
  have once : (rows.filter meets).Nodup :=
    (List.Nodup.of_map _ distinct).filter _
  have there : row ∈ rows.filter meets := mem_filter.mpr ⟨member, met⟩
  cases kept : rows.filter meets with
  | nil =>
    rw [kept] at there
    cases there
  | cons first rest =>
    rw [kept] at all once
    have isFirst := all first mem_cons_self
    cases rest with
    | nil =>
      rw [isFirst]
    | cons second later =>
      have isSecond := all second (by simp)
      rw [isFirst, isSecond, nodup_cons] at once
      exact absurd mem_cons_self once.1

theorem keyRowsOf_eq_singleton
    (distinct : (rows.map RosterArea.workspaceId).Nodup)
    {row : RosterArea}
    (member : row ∈ rows)
    (kept : row.retired = false) :
    keyRowsOf row.workspaceId rows = [row] := by
  refine filter_eq_singleton distinct member ?_ ?_
  · simp [kept]
  · intro other _ meets
    simp only [Bool.and_eq_true, decide_eq_true_eq] at meets
    exact meets.1

theorem keyRowsOf_eq_nil
    {workspaceId : String}
    (none : ∀ row ∈ rows, row.workspaceId = workspaceId →
      row.retired = true) :
    keyRowsOf workspaceId rows = [] := by
  refine filter_eq_nil_iff.mpr fun row member meets => ?_
  simp only [Bool.and_eq_true, decide_eq_true_eq] at meets
  have retired := none row member meets.1
  simp [retired] at meets

end

/-- What is asked of a call before its write. -/
structure Accounted (folders : Folders) (call : FolderCall) : Prop where
  follows : Follows folders.head call.roster.val
  areas : AreasFollow folders.ledger (some folders.head) call.roster.val
  newShape : call.newArea.isSome = true → call.route = .area
  retireShape : call.retireArea.isSome = true → call.route = .retire ∧
    call.rotations = [] ∧ changesOf folders.head call.roster.val = []
  names : (rowNames call.roster.val).Perm
    (expectedRows folders.ledger call)

/-- What a roster's rows leave of one folder. -/
inductive Landed
    (folders after : Folders)
    (next : Roster)
    (workspaceId : String) : Prop where
  | keyed
      {row : RosterArea}
      {area : Area}
      (member : row ∈ next.areas)
      (mine : row.workspaceId = workspaceId)
      (opens : row.retired = false)
      (found : after.Live workspaceId area)
      (version : area.workspaceKeyVersion = row.workspaceKeyVersion)
      (parent : area.root.parentKeyEpoch = area.workspaceKeyVersion)
      (selfGrants : ∀ userId version,
        area.selfGrants.get? userId = some version →
          version = area.workspaceKeyVersion ∨
            ∃ before, folders.Live workspaceId before ∧
              before.workspaceKeyVersion < area.workspaceKeyVersion ∧
              before.selfGrants.get? userId = some version)
  | retired
      {row : RosterArea}
      (member : row ∈ next.areas)
      (mine : row.workspaceId = workspaceId)
      (closes : row.retired = true)
      (dead : ∀ area, ¬ after.Live workspaceId area)
  | same
      (unlisted : ∀ row ∈ next.areas, row.workspaceId ≠ workspaceId)
      (still : after.areas.get? workspaceId =
        folders.areas.get? workspaceId)

section

variable {folders after : Folders}
variable {call : FolderCall}

theorem map_fst_expectedRows (ledger : AreaLedger) (call : FolderCall) :
    (expectedRows ledger call).map Prod.fst =
      call.newArea.toList.map AreaInput.workspaceId ++
        call.rotations.map RotationInput.workspaceId ++
        call.retireArea.toList := by
  simp [expectedRows, Function.comp_def]

theorem Accounted.distinct (accounted : Accounted folders call) :
    (call.newArea.toList.map AreaInput.workspaceId ++
      call.rotations.map RotationInput.workspaceId ++
      call.retireArea.toList).Nodup := by
  have ids : (rowNames call.roster.val).map Prod.fst =
      call.roster.val.areas.map RosterArea.workspaceId := by
    simp [rowNames, Function.comp_def]
  rw [← map_fst_expectedRows folders.ledger,
    ← (accounted.names.map Prod.fst).nodup_iff, ids]
  refine List.Pairwise.imp ?_ call.roster.property.areas_sorted
  rintro first second before rfl
  exact Before.irrefl _ before

theorem Accounted.listed
    (accounted : Accounted folders call)
    (name : RowName)
    (expected : name ∈ expectedRows folders.ledger call) :
    ∃ row ∈ call.roster.val.areas, row.workspaceId = name.1 ∧
      row.workspaceKeyVersion = name.2.1 ∧ row.retired = name.2.2 := by
  obtain ⟨row, member, rfl⟩ :=
    mem_map.mp (accounted.names.mem_iff.mpr expected)
  exact ⟨row, member, rfl, rfl, rfl⟩

theorem Accounted.accounted
    (accounted : Accounted folders call)
    {row : RosterArea}
    (member : row ∈ call.roster.val.areas) :
    row.workspaceId ∈ call.newArea.toList.map AreaInput.workspaceId ++
      call.rotations.map RotationInput.workspaceId ++
      call.retireArea.toList := by
  rw [← map_fst_expectedRows folders.ledger]
  have expected := accounted.names.mem_iff.mp
    (mem_map_of_mem (f := fun row : RosterArea =>
      (row.workspaceId, row.workspaceKeyVersion, row.retired)) member)
  exact mem_map_of_mem (f := Prod.fst) expected

/-- A new area starts at version 1, granted to its uploader alone. -/
theorem insertArea_eq_ok
    {uploader : String}
    {given : AreaInput}
    (inserted : insertArea uploader given folders = .ok after) :
    ∃ area, folders.areas.get? given.workspaceId = none ∧
      after = { folders with
        areas := folders.areas.set given.workspaceId area } ∧
      area.deleted = false ∧ area.workspaceKeyVersion = 1 ∧
      area.root.parentKeyEpoch = 1 ∧
      ∀ userId version, area.selfGrants.get? userId = some version →
        version = 1 := by
  simp only [insertArea, bind_eq_ok, exists_unit, refuseIf_eq_ok, not_or,
    not_not, not_exists, not_and, Bool.not_eq_true,
    Except.ok.injEq] at inserted
  obtain ⟨versions, absent, epochs, rfl⟩ := inserted
  refine ⟨_, ?_, rfl, rfl, rfl, epochs.2, ?_⟩
  · rw [get?_eq_none, ← has_iff, absent]
    exact Bool.false_ne_true
  · intro userId version stored
    rcases get?_set_cases stored with ⟨_, is⟩ | ⟨_, before⟩
    · rw [is]
      cases granted : given.selfGrantVersion with
      | none => rfl
      | some version => exact versions version granted
    · cases before

/-- Appending inserts, retires and rotates areas in turn. -/
theorem appendFolders_eq_ok
    (appended : appendFolders folders call = .ok after) :
    folders.chainRevision = call.expectedRevision ∧
      ∃ inserted retired rotated,
        folderPart (insertArea call.uploader) call.newArea folders =
          .ok inserted ∧
        folderPart retireArea call.retireArea inserted = .ok retired ∧
        (∀ given ∈ call.rotations,
          checkRotationDocuments retired given = .ok ()) ∧
        foldEach (applyRotation call.uploader) retired call.rotations =
          .ok rotated ∧
        after = { rotated with
          rosters := folders.rosters ++ [call.roster.val]
          head := call.roster.val
          chainRevision := folders.chainRevision + 1 } := by
  simp only [appendFolders, bind_eq_ok, exists_unit, refuseIf_eq_ok, not_not,
    forEach_eq_ok, Except.ok.injEq] at appended
  obtain ⟨_, revision, inserted, first, retired, second, documents, rotated,
    third, rfl⟩ := appended
  exact ⟨revision, inserted, retired, rotated, first, second, documents,
    third, rfl⟩

/-- The insert part touches its own area alone. -/
theorem inserted_of_part
    {uploader : String}
    {part : Option AreaInput}
    (inserted : folderPart (insertArea uploader) part folders = .ok after) :
    (∃ areas, after = { folders with areas }) ∧
      ∀ workspaceId,
        (workspaceId ∉ part.toList.map AreaInput.workspaceId ∧
          after.areas.get? workspaceId = folders.areas.get? workspaceId) ∨
        (workspaceId ∈ part.toList.map AreaInput.workspaceId ∧
          ∃ area, after.areas.get? workspaceId = some area ∧
            area.deleted = false ∧ area.workspaceKeyVersion = 1 ∧
            area.root.parentKeyEpoch = 1 ∧
            ∀ userId version, area.selfGrants.get? userId = some version →
              version = 1) := by
  cases part with
  | none =>
    simp only [folderPart, Except.ok.injEq] at inserted
    subst inserted
    exact ⟨⟨_, rfl⟩, fun _ => .inl ⟨by simp, rfl⟩⟩
  | some given =>
    obtain ⟨area, _, rfl, undeleted, version, parent, selfGrants⟩ :=
      insertArea_eq_ok inserted
    refine ⟨⟨_, rfl⟩, fun workspaceId => ?_⟩
    by_cases mine : workspaceId = given.workspaceId
    · refine .inr ⟨by simp [mine], area, ?_, undeleted, version, parent,
        selfGrants⟩
      exact (get?_set _ _ _ _).trans (if_pos mine)
    · exact .inl ⟨by simp [mine],
        (get?_set _ _ _ _).trans (if_neg mine)⟩

/-- The retire part deletes its own area alone. -/
theorem retired_of_part
    {part : Option String}
    (retired : folderPart retireArea part folders = .ok after) :
    (∃ areas, after = { folders with areas }) ∧
      ∀ workspaceId,
        (workspaceId ∉ part.toList ∧
          after.areas.get? workspaceId = folders.areas.get? workspaceId) ∨
        (workspaceId ∈ part.toList ∧
          ∃ area, after.areas.get? workspaceId = some area ∧
            area.deleted = true) := by
  cases part with
  | none =>
    simp only [folderPart, Except.ok.injEq] at retired
    subst retired
    exact ⟨⟨_, rfl⟩, fun _ => .inl ⟨by simp, rfl⟩⟩
  | some gone =>
    simp only [folderPart, retireArea, bind_eq_ok, Except.ok.injEq]
      at retired
    obtain ⟨area, _, rfl⟩ := retired
    refine ⟨⟨_, rfl⟩, fun workspaceId => ?_⟩
    by_cases mine : workspaceId = gone
    · refine .inr ⟨by simp [mine], { area with deleted := true }, ?_, rfl⟩
      exact (get?_set _ _ _ _).trans (if_pos mine)
    · exact .inl ⟨by simp [mine],
        (get?_set _ _ _ _).trans (if_neg mine)⟩

/-- Rotation documents that pass reseal what the area held. -/
theorem resealed_of_check
    {given : RotationInput}
    {before : Area}
    (checked : checkRotationDocuments folders given = .ok ())
    (found : folders.areas.get? given.workspaceId = some before) :
    Resealed before given := by
  simp only [checkRotationDocuments, found, bind_eq_ok, exists_unit,
    refuseIf_eq_ok, not_not, not_exists, not_and, Bool.not_eq_false,
    not_forall] at checked
  obtain ⟨once, _, current⟩ := checked
  have writes : ∀ kind,
      (resealDocuments before given.documents).documents.get? kind =
        (given.documents.find? fun document => document.kind = kind).elim
          (before.documents.get? kind)
          fun document => (before.documents.get? kind).map fun stored =>
            if stored.version = document.version then
              { version := document.version + 1
                envelope := document.envelope }
            else
              stored := by
    refine Runs.read_run (fun documents kind => documents.get? kind)
      (fun document stored => stored.map fun stored =>
        if stored.version = document.version then
          { version := document.version + 1, envelope := document.envelope }
        else
          stored) ?_ once before.documents
    intro documents document kind
    rw [get?_update]
    by_cases mine : kind = document.kind
    · simp [mine]
    · simp [mine]
  constructor
  · intro kind stored isStored
    obtain ⟨document, member, isKind, isVersion⟩ :=
      current (kind, stored) (get?_eq_some.mp isStored)
    have isFound : (given.documents.find? fun document =>
        document.kind = kind) = some document := by
      cases isNone : given.documents.find? fun document =>
          document.kind = kind with
      | none =>
        exact absurd (decide_eq_true isKind)
          (find?_eq_none.mp isNone document member)
      | some other =>
        have isOther : other.kind = kind := by
          simpa using find?_some isNone
        rw [inj_on_of_nodup_map once
          (mem_of_find?_eq_some isNone) member
          (isOther.trans isKind.symm)]
    refine ⟨document, member, isKind, isVersion, ?_⟩
    rw [writes, isFound, Option.elim, isStored, Option.map_some,
      if_pos isVersion.symm, isVersion]
  · intro kind absent
    rw [writes, absent]
    cases given.documents.find? fun document => document.kind = kind <;> rfl

/-- Every area lands as the appended roster says. -/
theorem landed_of_append
    (accounted : Accounted folders call)
    (appended : appendFolders folders call = .ok after) :
    (∃ areas, after =
      { rosters := folders.rosters ++ [call.roster.val]
        head := call.roster.val
        chainRevision := folders.chainRevision + 1
        areas }) ∧
      (∀ workspaceId,
        Landed folders after call.roster.val workspaceId) ∧
      ∀ given ∈ call.rotations, ∃ before area,
        folders.areas.get? given.workspaceId = some before ∧
          after.areas.get? given.workspaceId = some area ∧
          Rotated before area given ∧ Resealed before given := by
  obtain ⟨_, inserted, retired, rotated, first, second, documents, third,
    rfl⟩ := appendFolders_eq_ok appended
  obtain ⟨⟨_, rfl⟩, isInserted⟩ := inserted_of_part first
  obtain ⟨⟨_, rfl⟩, isRetired⟩ := retired_of_part second
  have distinct := accounted.distinct
  rw [nodup_append', nodup_append'] at distinct
  obtain ⟨⟨_, once, newApart⟩, _, goneApart⟩ := distinct
  obtain ⟨⟨areas, rfl⟩, others, each⟩ := rotated_of_foldEach once third
  have rotations : ∀ given ∈ call.rotations, ∃ before area,
      folders.areas.get? given.workspaceId = some before ∧
        areas.get? given.workspaceId = some area ∧
        Rotated before area given ∧ Resealed before given := by
    intro given member
    obtain ⟨before, area, was, is, isRotated⟩ := each given member
    have mine := mem_map_of_mem (f := RotationInput.workspaceId) member
    have resealed := resealed_of_check (documents given member) was
    refine ⟨before, area, ?_, is, isRotated, resealed⟩
    rcases isRetired given.workspaceId with ⟨_, same⟩ | ⟨gone, _⟩
    · rcases isInserted given.workspaceId with ⟨_, still⟩ | ⟨new, _⟩
      · rw [← still]
        exact same.symm.trans was
      · exact absurd mine (newApart new)
    · exact absurd gone (goneApart (mem_append_right _ mine))
  refine ⟨⟨_, rfl⟩, fun workspaceId => ?_, rotations⟩
  by_cases mine :
      workspaceId ∈ call.rotations.map RotationInput.workspaceId
  · obtain ⟨given, member, rfl⟩ := mem_map.mp mine
    obtain ⟨before, area, was, is, isRotated, _⟩ := rotations given member
    obtain ⟨row, inRoster, isMine, version, opens⟩ :=
      accounted.listed (given.workspaceId, given.toVersion, false)
        (by simp only [expectedRows, mem_append]
            exact .inl (.inr (mem_map_of_mem member)))
    refine .keyed inRoster isMine opens ⟨is, isRotated.live⟩
      (isRotated.version.trans version.symm)
      (isRotated.parent.trans isRotated.version.symm) ?_
    intro userId stored isStored
    rcases isRotated.selfGrants userId stored isStored with before | new
    · refine .inr ⟨_, ⟨was, isRotated.lives⟩, ?_, before⟩
      rw [isRotated.version, isRotated.next]
      exact Nat.lt_succ_self _
    · exact .inl (new.trans isRotated.version.symm)
  · have kept := others workspaceId mine
    rcases isRetired workspaceId with ⟨notGone, same⟩ | ⟨gone, area, is, dead⟩
    · rcases isInserted workspaceId with ⟨notNew, still⟩ |
        ⟨new, area, is, undeleted, version, parent, selfGrants⟩
      · refine .same ?_ ((kept.trans same).trans still)
        rintro row member rfl
        have expected := accounted.accounted member
        simp only [mem_append] at expected
        rcases expected with (new | rotates) | gone
        · exact notNew new
        · exact mine rotates
        · exact notGone gone
      · obtain ⟨given, isGiven, rfl⟩ := mem_map.mp new
        obtain ⟨row, inRoster, isMine, isVersion, opens⟩ :=
          accounted.listed (given.workspaceId, 1, false)
            (by simp only [expectedRows, mem_append]
                exact .inl (.inl (mem_map_of_mem isGiven)))
        refine .keyed inRoster isMine opens
          ⟨(kept.trans same).trans is, undeleted⟩
          (version.trans isVersion.symm) (parent.trans version.symm) ?_
        intro userId stored isStored
        exact .inl ((selfGrants userId stored isStored).trans version.symm)
    · obtain ⟨row, inRoster, isMine, _, closes⟩ :=
        accounted.listed (workspaceId,
            (folders.ledger.keys.listAt workspaceId).length + 1, true)
          (by simp only [expectedRows, mem_append]
              exact .inr (mem_map_of_mem gone))
      refine .retired inRoster isMine closes ?_
      rintro live ⟨isLive, undeleted⟩
      rw [show areas.get? workspaceId = some area from kept.trans is,
        Option.some.injEq] at isLive
      subst isLive
      rw [dead] at undeleted
      cases undeleted

end

end Groups

end HushOS
