import HushOS.Groups.Filed
import HushOS.Groups.Wedged

namespace HushOS

open Toolkit List OrderedMap

namespace Groups

/-!
# A family's folders over any run

Each write of the chain, each Drive write and each purge keeps the live
folders the chain's areas; a call's reading is either of the chain as it
stands or refused.  So a removal finds exactly the chain's live areas, and
rotates them all or writes nothing.
-/

section

variable {folders after : Folders}
variable {next : Roster}

theorem Folders.mem_liveAreas {workspaceId : String} :
    workspaceId ∈ liveAreas folders.ledger ↔
      keyRowsOf workspaceId folders.rows ≠ [] ∧
        ∀ row ∈ folders.rows, row.workspaceId = workspaceId →
          row.retired = false :=
  mem_liveAreas_of

/-- An area with a new key row is live under that row. -/
theorem listed_of_keyRow
    (rows : after.rows = folders.rows ++ next.areas)
    (distinct : (next.areas.map RosterArea.workspaceId).Nodup)
    {row : RosterArea}
    (member : row ∈ next.areas)
    (follows : RowFollows folders.ledger row)
    (opens : row.retired = false) :
    row.workspaceId ∈ liveAreas after.ledger ∧
      (keyRowsOf row.workspaceId after.rows).getLast? = some row := by
  have keyRows : keyRowsOf row.workspaceId after.rows =
      keyRowsOf row.workspaceId folders.rows ++ [row] := by
    rw [rows, keyRowsOf_append, keyRowsOf_eq_singleton distinct member opens]
  refine ⟨Folders.mem_liveAreas.mpr ⟨?_, ?_⟩, ?_⟩
  · rw [keyRows]
    simp
  · intro other isRow mine
    rw [rows] at isRow
    rcases mem_append.mp isRow with earlier | new
    · by_contra closed
      exact follows.live (mem_retired_of.mpr
        ⟨other, earlier, by simpa using closed, mine⟩)
    · rw [inj_on_of_nodup_map distinct new member mine]
      exact opens
  · rw [keyRows, getLast?_concat]

/-- An area the roster does not list stays as it was. -/
theorem listed_of_unlisted
    (rows : after.rows = folders.rows ++ next.areas)
    {workspaceId : String}
    (unlisted : ∀ row ∈ next.areas, row.workspaceId ≠ workspaceId) :
    keyRowsOf workspaceId after.rows = keyRowsOf workspaceId folders.rows ∧
      (workspaceId ∈ liveAreas after.ledger ↔
        workspaceId ∈ liveAreas folders.ledger) := by
  have keyRows : keyRowsOf workspaceId after.rows =
      keyRowsOf workspaceId folders.rows := by
    rw [rows, keyRowsOf_append, keyRowsOf_eq_nil fun row member mine =>
      absurd mine (unlisted row member), append_nil]
  refine ⟨keyRows, ?_⟩
  rw [Folders.mem_liveAreas, Folders.mem_liveAreas, keyRows, rows]
  refine and_congr_right fun _ => ⟨?_, ?_⟩
  · intro open_ row member
    exact open_ row (mem_append_left _ member)
  · intro open_ row member mine
    rcases mem_append.mp member with earlier | new
    · exact open_ row earlier mine
    · exact absurd mine (unlisted row new)

/-- Areas that have landed leave the folders filed. -/
theorem Filed.lands
    (filed : Filed folders)
    (rows : after.rows = folders.rows ++ next.areas)
    (follows : ∀ row ∈ next.areas, RowFollows folders.ledger row)
    (distinct : (next.areas.map RosterArea.workspaceId).Nodup)
    (landed : ∀ workspaceId, Landed folders after next workspaceId) :
    Filed after := by
  constructor
  · intro workspaceId
    cases landed workspaceId with
    | keyed member mine opens found =>
      subst mine
      have listed := listed_of_keyRow rows distinct member
        (follows _ member) opens
      exact ⟨fun _ => listed.1, fun _ => ⟨_, found⟩⟩
    | retired member mine closes dead =>
      refine ⟨fun ⟨area, live⟩ => absurd live (dead area), fun listed => ?_⟩
      have opens := (Folders.mem_liveAreas.mp listed).2 _
        (rows ▸ mem_append_right _ member) mine
      rw [closes] at opens
      cases opens
    | same unlisted still =>
      rw [(listed_of_unlisted rows unlisted).2, ← filed.listed]
      simp only [Folders.Live, still]
  · intro workspaceId area live
    cases landed workspaceId with
    | keyed member mine opens found version parent selfGrants =>
      subst mine
      have same := Option.some.inj (found.1.symm.trans live.1)
      subst same
      have listed := listed_of_keyRow rows distinct member
        (follows _ member) opens
      refine ⟨?_, parent, ?_⟩
      · rw [listed.2, Option.map_some, version]
      · intro userId stored isStored
        rcases selfGrants userId stored isStored with
          new | ⟨before, wasLive, older, was⟩
        · exact Nat.le_of_eq new
        · have kept := (filed.keyed _ before wasLive).selfGrants userId
            stored was
          omega
    | retired member mine closes dead =>
      exact absurd live (dead area)
    | same unlisted still =>
      have wasLive : folders.Live workspaceId area :=
        ⟨still ▸ live.1, live.2⟩
      have keyed := filed.keyed workspaceId area wasLive
      refine ⟨?_, keyed.root, keyed.selfGrants⟩
      rw [(listed_of_unlisted rows unlisted).1]
      exact keyed.version

theorem distinct_rows (valid : next.Valid) :
    (next.areas.map RosterArea.workspaceId).Nodup := by
  refine List.Pairwise.imp ?_ valid.areas_sorted
  rintro first second before rfl
  exact Before.irrefl _ before

end

section

variable {folders after : Folders}
variable {call : FolderCall}

/-- What was read of the chain as it stands. -/
structure FolderReading.Current (folders : Folders) (reading : FolderReading) :
    Prop where
  head : reading.head = folders.head
  ledger : reading.ledger = folders.ledger

/-- A folder write is one that is accounted for and appended. -/
theorem writeFolders_eq_ok
    {reading : FolderReading}
    (current : reading.revision = folders.chainRevision →
      reading.Current folders)
    (written : writeFolders folders reading call = .ok after) :
    Accounted folders call ∧ appendFolders folders call = .ok after := by
  simp only [writeFolders, folderShape, checkAreaRows, bind_eq_ok,
    exists_unit, refuseIf_eq_ok, not_not, not_and, not_or,
    Bool.not_eq_false] at written
  obtain ⟨revision, ⟨newShape, retireShape⟩, follows, areas, names,
    appended⟩ := written
  obtain ⟨chainRevision, _⟩ := appendFolders_eq_ok appended
  obtain ⟨head, ledger⟩ := current (revision.trans chainRevision.symm)
  rw [head] at follows areas retireShape
  rw [ledger] at areas names
  refine ⟨⟨follows, ?_, newShape, retireShape, names⟩, appended⟩
  refine checkAreas_eq_ok.mp ?_
  cases checked : checkAreas folders.ledger (some folders.head)
      call.roster.val with
  | ok done => rfl
  | error refusal =>
    rw [checked] at areas
    cases areas

theorem leaving_of_unchanged
    {head : Roster}
    {next : ReadRoster}
    (follows : Follows head next.val)
    (unchanged : changesOf head next.val = []) :
    leaving head next.val = false := by
  rw [Bool.eq_false_iff]
  intro leaves
  obtain ⟨entry, member, isLeaving⟩ := any_eq_true.mp leaves
  simp only [Bool.and_eq_true, decide_eq_true_eq] at isLeaving
  have unlisted : entry.userId ∉
      (changesOf head next.val).map EntryChange.userId := by
    rw [unchanged]
    exact not_mem_nil
  have stays := active_of_unchanged follows unlisted
  rw [rosterEntry_of_mem next.property member, isLeaving.2] at stays
  simp [active, isLeaving.1] at stays

/-- Leaving a family rotates and reseals every area that stays live. -/
theorem rotated_of_leaving
    (filed : Filed folders)
    (accounted : Accounted folders call)
    (appended : appendFolders folders call = .ok after)
    (family : call.roster.val.kind = .family)
    (leaves : leaving folders.head call.roster.val = true)
    {workspaceId : String}
    {before : Area}
    (live : folders.Live workspaceId before) :
    ∃ given ∈ call.rotations, ∃ area, given.workspaceId = workspaceId ∧
      after.Live workspaceId area ∧ Rotated before area given ∧
        Resealed before given := by
  have listed := (filed.listed workspaceId).mp ⟨before, live⟩
  obtain ⟨keyed, _⟩ := Folders.mem_liveAreas.mp listed
  rw [liveAreas, mem_filter, decide_eq_true_eq] at listed
  obtain ⟨row, member, mine⟩ := accounted.areas.rotated folders.head rfl
    family leaves workspaceId listed.1 listed.2
  have expected := accounted.names.mem_iff.mp
    (mem_map_of_mem (f := fun row : RosterArea =>
      (row.workspaceId, row.workspaceKeyVersion, row.retired)) member)
  simp only [expectedRows, mem_append, mem_map,
    Option.mem_toList] at expected
  rcases expected with (⟨new, _, isNew⟩ | ⟨given, isGiven, isRow⟩) |
    ⟨gone, isGone, _⟩
  · -- A first row is of an area the chain has no key of.
    have first : row.workspaceKeyVersion = 1 :=
      (congrArg (fun name => name.2.1) isNew).symm
    have version := (accounted.areas.rows row member).version
    rw [first, mine, Folders.ledger, listAt_keys_of, length_map]
      at version
    exact absurd (length_eq_zero_iff.mp (by omega)) keyed
  · have same : given.workspaceId = workspaceId :=
      (congrArg Prod.fst isRow).trans mine
    obtain ⟨_, _, each⟩ := landed_of_append accounted appended
    obtain ⟨was, area, found, is, rotated, resealed⟩ := each given isGiven
    rw [same] at found is
    have isBefore := Option.some.inj (found.symm.trans live.1)
    subst isBefore
    exact ⟨given, isGiven, area, same, ⟨is, rotated.live⟩, rotated, resealed⟩
  · -- A deletion comes with no change, so with nobody left.
    have deletes : call.retireArea.isSome = true := by
      rw [isGone]
      rfl
    rw [leaving_of_unchanged accounted.follows
      (accounted.retireShape deletes).2.2] at leaves
    cases leaves

end

section

variable {folders : Folders}
variable {before after : Area}

/-- What every Drive write leaves of a folder it has locked. -/
structure Worked (before after : Area) : Prop where
  deleted : after.deleted = before.deleted
  version : after.workspaceKeyVersion = before.workspaceKeyVersion
  parent : after.root.parentKeyEpoch = before.root.parentKeyEpoch
  selfGrants : ∀ userId version, after.selfGrants.get? userId = some version →
    before.selfGrants.get? userId = some version ∨
      version = before.workspaceKeyVersion

/-- A Drive write works on the area within its key. -/
theorem worked_of_driveWrite
    {write : DriveWrite}
    (written : driveWrite before write = .ok after) :
    Worked before after := by
  have quiet {area : Area}
      (deleted : area.deleted = before.deleted)
      (version : area.workspaceKeyVersion = before.workspaceKeyVersion)
      (parent : area.root.parentKeyEpoch = before.root.parentKeyEpoch)
      (selfGrants : area.selfGrants = before.selfGrants) :
      Worked before area :=
    ⟨deleted, version, parent, fun _ _ stored => .inl (selfGrants ▸ stored)⟩
  cases write with
  | allocate count =>
    cases written
    exact quiet rfl rfl rfl rfl
  | nodes otherNodes =>
    cases written
    exact quiet rfl rfl rfl rfl
  | touchRoot =>
    cases written
    exact quiet rfl rfl rfl rfl
  | start nodeId =>
    simp only [driveWrite, bind_eq_ok, exists_unit, Except.ok.injEq]
      at written
    obtain ⟨_, rfl⟩ := written
    exact quiet rfl rfl rfl rfl
  | rotateRoot given =>
    cases written
  | finish coversRoot =>
    cases written
    cases coversRoot <;> exact quiet rfl rfl rfl rfl
  | putDocument kind version envelope =>
    simp only [driveWrite] at written
    split at written <;>
      simp only [bind_eq_ok, exists_unit, Except.ok.injEq] at written <;>
      obtain ⟨_, rfl⟩ := written <;>
      exact quiet rfl rfl rfl rfl
  | putSelfGrant userId version =>
    simp only [driveWrite, bind_eq_ok, exists_unit, refuseIf_eq_ok, not_not,
      Except.ok.injEq] at written
    obtain ⟨current, rfl⟩ := written
    refine ⟨rfl, rfl, rfl, fun other stored isStored => ?_⟩
    rcases get?_set_cases isStored with ⟨_, is⟩ | ⟨_, was⟩
    · exact .inr (is.trans current)
    · exact .inl was
  | replacePreviousRoot envelope =>
    simp only [driveWrite, bind_eq_ok, exists_unit, Except.ok.injEq]
      at written
    obtain ⟨_, rfl⟩ := written
    exact quiet rfl rfl rfl rfl
  | revoke userId =>
    cases written
    refine ⟨rfl, rfl, rfl, fun other stored isStored => .inl ?_⟩
    rw [get?_erase] at isStored
    split at isStored
    · cases isStored
    · exact isStored

/-- Work within an area leaves the folders filed. -/
theorem Filed.worked
    {workspaceId : String}
    (filed : Filed folders)
    (was : folders.areas.get? workspaceId = some before)
    (worked : Worked before after) :
    Filed { folders with areas := folders.areas.set workspaceId after } := by
  have lives : ∀ other area,
      Folders.Live { folders with
        areas := folders.areas.set workspaceId after } other area →
      (other = workspaceId ∧ area = after ∧
        folders.Live workspaceId before) ∨ folders.Live other area := by
    rintro other area ⟨found, undeleted⟩
    rcases get?_set_cases found with ⟨rfl, rfl⟩ | ⟨_, there⟩
    · exact .inl ⟨rfl, rfl, was, worked.deleted ▸ undeleted⟩
    · exact .inr ⟨there, undeleted⟩
  constructor
  · intro other
    refine Iff.trans ⟨?_, ?_⟩ (filed.listed other)
    · rintro ⟨area, live⟩
      rcases lives other area live with ⟨rfl, _, wasLive⟩ | wasLive
      · exact ⟨before, wasLive⟩
      · exact ⟨area, wasLive⟩
    · rintro ⟨area, found, undeleted⟩
      by_cases mine : other = workspaceId
      · subst mine
        rw [was, Option.some.injEq] at found
        subst found
        exact ⟨after, (get?_set _ _ _ _).trans (if_pos rfl),
          worked.deleted.trans undeleted⟩
      · exact ⟨area, ((get?_set _ _ _ _).trans
          (if_neg mine)).trans found, undeleted⟩
  · intro other area live
    rcases lives other area live with ⟨rfl, rfl, wasLive⟩ | wasLive
    · have keyed := filed.keyed _ before wasLive
      refine ⟨?_, ?_, ?_⟩
      · rw [worked.version]
        exact keyed.version
      · rw [worked.parent, worked.version]
        exact keyed.root
      · intro userId stored isStored
        rw [worked.version]
        rcases worked.selfGrants userId stored isStored with earlier | now
        · exact keyed.selfGrants userId stored earlier
        · exact Nat.le_of_eq now
    · exact filed.keyed other area wasLive

/-- Purging a deleted area leaves the folders filed. -/
theorem Filed.purged
    {workspaceId : String}
    (filed : Filed folders)
    (was : folders.areas.get? workspaceId = some before)
    (deleted : before.deleted = true) :
    Filed { folders with areas := folders.areas.erase workspaceId } := by
  have lives : ∀ other area,
      Folders.Live { folders with
        areas := folders.areas.erase workspaceId } other area ↔
      folders.Live other area := by
    intro other area
    simp only [Folders.Live, get?_erase]
    by_cases mine : other = workspaceId
    · subst mine
      rw [if_pos rfl, was]
      constructor
      · rintro ⟨found, _⟩
        cases found
      · rintro ⟨found, undeleted⟩
        rw [Option.some.injEq] at found
        subst found
        rw [deleted] at undeleted
        cases undeleted
    · rw [if_neg mine]
  constructor
  · intro other
    simp only [lives]
    exact filed.listed other
  · intro other area live
    exact filed.keyed other area ((lives other area).mp live)

end

/-- What holds of a group's folders and of the calls under way. -/
structure Shelved (cabinet : Cabinet) : Prop where
  filed : Filed cabinet.folders
  latest : cabinet.folders.rosters.getLast? = some cabinet.folders.head
  readings : ∀ number reading, cabinet.calls.get? number = some reading →
    reading.revision ≤ cabinet.folders.chainRevision ∧
      (reading.revision = cabinet.folders.chainRevision →
        reading.Current cabinet.folders)

section

variable {cabinet : Cabinet}
variable {after : Folders}

theorem Shelved.accounted
    (shelved : Shelved cabinet)
    {number : Nat}
    {call : FolderCall}
    (attempted : cabinet.attempt (.write number call) = .ok after) :
    Accounted cabinet.folders call ∧
      appendFolders cabinet.folders call = .ok after := by
  simp only [Cabinet.attempt] at attempted
  split at attempted
  · next reading found =>
      exact writeFolders_eq_ok (shelved.readings number reading found).2
        attempted
  · cases attempted

theorem Filed.appended
    {folders : Folders}
    {call : FolderCall}
    (filed : Filed folders)
    (accounted : Accounted folders call)
    (appended : appendFolders folders call = .ok after) :
    Filed after ∧ after.rosters.getLast? = some after.head ∧
      after.chainRevision = folders.chainRevision + 1 := by
  obtain ⟨⟨areas, rfl⟩, landed, _⟩ := landed_of_append accounted appended
  refine ⟨filed.lands ?_ accounted.areas.rows
    (distinct_rows call.roster.property) landed, getLast?_concat, rfl⟩
  simp [Folders.rows]

/-- An accepted move leaves the cabinet filed, and its revision counts. -/
theorem Shelved.attempt
    (shelved : Shelved cabinet)
    {move : FolderMove}
    (attempted : cabinet.attempt move = .ok after) :
    Filed after ∧ after.rosters.getLast? = some after.head ∧
      ((∃ areas, after = { cabinet.folders with areas }) ∨
        after.chainRevision = cabinet.folders.chainRevision + 1) := by
  cases move with
  | read number =>
    cases attempted
    exact ⟨shelved.filed, shelved.latest, .inl ⟨_, rfl⟩⟩
  | write number call =>
    obtain ⟨accounted, appended⟩ := shelved.accounted attempted
    obtain ⟨filed, latest, revision⟩ :=
      shelved.filed.appended accounted appended
    exact ⟨filed, latest, .inr revision⟩
  | succeed expectedRevision =>
    simp only [Cabinet.attempt, bind_eq_ok, exists_unit, Except.ok.injEq]
      at attempted
    obtain ⟨_, rfl⟩ := attempted
    exact ⟨⟨shelved.filed.listed, shelved.filed.keyed⟩, shelved.latest,
      .inr rfl⟩
  | drive workspaceId write =>
    simp only [Cabinet.attempt] at attempted
    split at attempted
    · next before found =>
        simp only [bind_eq_ok, Except.ok.injEq] at attempted
        obtain ⟨area, written, rfl⟩ := attempted
        exact ⟨shelved.filed.worked found (worked_of_driveWrite written),
          shelved.latest, .inl ⟨_, rfl⟩⟩
    · cases attempted
  | purge workspaceId =>
    simp only [Cabinet.attempt] at attempted
    split at attempted
    · next before found =>
        split at attempted
        · next deleted =>
            cases attempted
            exact ⟨shelved.filed.purged found deleted, shelved.latest,
              .inl ⟨_, rfl⟩⟩
        · cases attempted
    · cases attempted

theorem folders_of_refused
    {move : FolderMove}
    {refusal : Refusal}
    (refused : cabinet.attempt move = .error refusal) :
    (cabinet.step move).folders = cabinet.folders := by
  simp only [Cabinet.step, refused]

/-- Every move leaves the cabinet filed. -/
theorem Shelved.step (shelved : Shelved cabinet) (move : FolderMove) :
    Shelved (cabinet.step move) := by
  have stays : Filed (cabinet.step move).folders ∧
      (cabinet.step move).folders.rosters.getLast? =
        some (cabinet.step move).folders.head ∧
      ((∃ areas, (cabinet.step move).folders =
          { cabinet.folders with areas }) ∨
        (cabinet.step move).folders.chainRevision =
          cabinet.folders.chainRevision + 1) := by
    cases attempted : cabinet.attempt move with
    | ok after =>
      simp only [Cabinet.step, attempted]
      exact shelved.attempt attempted
    | error refusal =>
      rw [folders_of_refused attempted]
      exact ⟨shelved.filed, shelved.latest, .inl ⟨_, rfl⟩⟩
  refine ⟨stays.1, stays.2.1, fun number reading found => ?_⟩
  have earlier : cabinet.calls.get? number = some reading →
      reading.revision ≤ (cabinet.step move).folders.chainRevision ∧
        (reading.revision = (cabinet.step move).folders.chainRevision →
          reading.Current (cabinet.step move).folders) := by
    intro was
    obtain ⟨reached, current⟩ := shelved.readings number reading was
    rcases stays.2.2 with ⟨areas, same⟩ | revision
    · rw [same]
      exact ⟨reached, fun isNow => ⟨(current isNow).head,
        (current isNow).ledger⟩⟩
    · rw [revision]
      exact ⟨by omega, fun isNow => by omega⟩
  cases move with
  | read other =>
    rcases get?_set_cases found with ⟨_, rfl⟩ | ⟨_, was⟩
    · exact ⟨Nat.le_refl _, fun _ => ⟨rfl, rfl⟩⟩
    · exact earlier was
  | write other call => exact earlier found
  | succeed expectedRevision => exact earlier found
  | drive workspaceId write => exact earlier found
  | purge workspaceId => exact earlier found

/-- A new family's folders are filed. -/
theorem shelved_createFolders
    {creatorUserId : String}
    {first : ReadRoster}
    {area : AreaInput}
    (created : createFolders creatorUserId first area = .ok after) :
    Shelved (Cabinet.start after) := by
  simp only [createFolders, checkAreaRows, bind_eq_ok, exists_unit,
    refuseIf_eq_ok, not_not, Bool.not_eq_false] at created
  obtain ⟨areas, _, names, inserted⟩ := created
  have follows : AreasFollow .empty none first.val := by
    refine checkAreas_eq_ok.mp ?_
    cases checked : checkAreas .empty none first.val with
    | ok done => rfl
    | error refusal =>
      rw [checked] at areas
      cases areas
  obtain ⟨stored, _, rfl, undeleted, version, parent, selfGrants⟩ :=
    insertArea_eq_ok inserted
  let nothing : Folders :=
    { rosters := [], head := first.val, chainRevision := 0, areas := .empty }
  have none_ : Filed nothing :=
    ⟨fun workspaceId => ⟨(by rintro ⟨_, live⟩; cases live.1),
      fun listed => (by cases listed)⟩, fun _ _ live => (by cases live.1)⟩
  obtain ⟨row, member, isRow⟩ := mem_map.mp
    (names.mem_iff.mpr (mem_singleton.mpr rfl))
  have mine : row.workspaceId = area.workspaceId := congrArg Prod.fst isRow
  refine ⟨none_.lands ?_ follows.rows (distinct_rows first.property) ?_, rfl,
    fun _ _ found => (by cases found)⟩
  · simp [Cabinet.start, Folders.rows, nothing]
  · intro workspaceId
    by_cases same : workspaceId = area.workspaceId
    · subst same
      refine .keyed member mine (congrArg (fun name => name.2.2) isRow)
        ⟨(get?_set _ _ _ _).trans (if_pos rfl), undeleted⟩
        (version.trans (congrArg (fun name => name.2.1) isRow).symm)
        (parent.trans version.symm) ?_
      intro userId granted isGranted
      exact .inl ((selfGrants userId granted isGranted).trans version.symm)
    · refine .same ?_ ((get?_set _ _ _ _).trans (if_neg same))
      rintro other isOther rfl
      have name := names.mem_iff.mp (mem_map_of_mem (f := fun row :
        RosterArea => (row.workspaceId, row.workspaceKeyVersion,
          row.retired)) isOther)
      exact same (congrArg Prod.fst (mem_singleton.mp name))

end

theorem eq_ok_of_toOption
    {answer : Except Refusal Folders}
    {folders : Folders}
    (some_ : answer.toOption = some folders) :
    answer = .ok folders := by
  cases answer with
  | error refusal => cases some_
  | ok other => exact congrArg Except.ok (Option.some.inj some_)

/--
In every state of a family's folders, whatever calls, Drive writes and purges
ran, the live folders are the areas the stored chain lists and has not
retired, each at its chain's version with its root and self-grants; a roster
that marks someone left is accepted only with every live folder moved on, its
root re-keyed, its documents sealed again and its old root key kept; and what
is refused writes nothing.
-/
theorem folders_are_areas
    {creatorUserId : String}
    {first : ReadRoster}
    {area : AreaInput}
    {created : Folders}
    (made : createFolders creatorUserId first area = .ok created)
    (moves : List FolderMove) :
    let cabinet := (Cabinet.start created).run moves
    Filed cabinet.folders ∧
      cabinet.folders.rosters.getLast? = some cabinet.folders.head ∧
      (∀ number call after,
        cabinet.attempt (.write number call) = .ok after →
        call.roster.val.kind = .family →
        leaving cabinet.folders.head call.roster.val = true →
        ∀ workspaceId before, cabinet.folders.Live workspaceId before →
          ∃ given ∈ call.rotations, ∃ area,
            given.workspaceId = workspaceId ∧
              after.Live workspaceId area ∧ Rotated before area given ∧
                Resealed before given) ∧
      ∀ move refusal, cabinet.attempt move = .error refusal →
        (cabinet.step move).folders = cabinet.folders := by
  intro cabinet
  have shelved : Shelved cabinet :=
    Runs.keeps_of_step Shelved (fun _ move shelved => shelved.step move) moves
      (shelved_createFolders made)
  refine ⟨shelved.filed, shelved.latest, ?_, fun _ _ => folders_of_refused⟩
  intro number call after attempted family leaves workspaceId before live
  obtain ⟨accounted, appended⟩ := shelved.accounted attempted
  exact rotated_of_leaving shelved.filed accounted appended family leaves live

section Removal

/-- The founder and another, with a first folder. -/
def twoWithFolder : ReadRoster where
  val := sampleFirst
  property := sampleFamily_valid _ (by simp [sampleFamily])

/-- The other has left, and the folder has its next key. -/
def oneWithFolder : ReadRoster where
  val := sampleSecond
  property := sampleFamily_valid _ (by simp [sampleFamily])

/-- The first folder, its root under the first key. -/
def firstFolder : AreaInput where
  workspaceId := sampleArea
  rootId := "root"
  keyEnvelope := "root key 1"
  keyEpoch := 1
  parentKeyEpoch := 1
  selfGrantVersion := none

/-- The removal, its rotation and the document it seals again. -/
def takeAway : FolderCall where
  uploader := sampleOwner
  expectedRevision := 1
  route := .roster
  roster := oneWithFolder
  newArea := none
  retireArea := none
  rotations :=
    [{ workspaceId := sampleArea
       fromVersion := 1
       toVersion := 2
       targetEpoch := 2
       rootId := "root"
       rootChangeSeq := 1
       rootParentKeyEpoch := 2
       rootKeyEnvelope := "root key 2"
       rootRotated := true
       previousRootKeyEnvelope := "root key 1 under area key 2"
       selfGrantVersion := 2
       documents :=
        [{ kind := "settings", version := 1, envelope := "settings 2" }] }]
  elsewhere := false

/-- A document is kept, an epoch is drawn, and the chain is read. -/
def beforeRemoval : List FolderMove :=
  [.drive sampleArea (.putDocument "settings" 0 "settings 1"),
    .drive sampleArea (.allocate 1),
    .read 1]

/-- The removal is accepted, and moves the one live folder. -/
theorem folders_are_areas_removal :
    ∃ created after,
      createFolders sampleOwner twoWithFolder firstFolder = .ok created ∧
      ((Cabinet.start created).run beforeRemoval).attempt
        (.write 1 takeAway) = .ok after ∧
      ∀ workspaceId before,
        ((Cabinet.start created).run beforeRemoval).folders.Live workspaceId
          before →
        ∃ given ∈ takeAway.rotations, ∃ area,
          given.workspaceId = workspaceId ∧ after.Live workspaceId area ∧
            Rotated before area given ∧ Resealed before given := by
  have computed : (createFolders sampleOwner twoWithFolder
      firstFolder).toOption.any (fun created =>
        let cabinet := (Cabinet.start created).run beforeRemoval
        (cabinet.attempt (.write 1 takeAway)).toOption.isSome &&
          leaving cabinet.folders.head sampleSecond) = true := by
    decide
  rw [Option.any_eq_true] at computed
  obtain ⟨created, isCreated, computed⟩ := computed
  simp only [Bool.and_eq_true] at computed
  obtain ⟨accepted, leaves⟩ := computed
  have made := eq_ok_of_toOption isCreated
  obtain ⟨after, isAfter⟩ := Option.isSome_iff_exists.mp accepted
  have attempted := eq_ok_of_toOption isAfter
  obtain ⟨_, _, removal, _⟩ := folders_are_areas made beforeRemoval
  exact ⟨created, after, made, attempted,
    removal 1 takeAway after attempted rfl leaves⟩

end Removal

end Groups

end HushOS
