import HushOS.Drive.Heights

namespace HushOS

open Toolkit List OrderedMap

namespace Drive

/-!
# Walks reach a root

Folders stand within the depth in every run, whatever else it does: a folder is
made within it, and moved only where all the folders in it stay within it.  So
a chain of parents ends at a root before a walk's cap.
-/

/-- Folders stand within the depth, each bounded above the folders in it. -/
structure Housed (nodes : OrderedMap Uuid Node) : Prop where
  climbs : ∀ {id row parentId parent}, nodes.get? id = some row →
    row.parentId = some parentId → nodes.get? parentId = some parent →
      row.kind = .folder → row.heightBound < parent.heightBound
  deep : ∀ {id row}, nodes.get? id = some row → row.kind = .folder →
    ∃ above, Lineage nodes id above ∧ above.length ≤ MAX_DEPTH

theorem housed_empty : Housed Database.empty.nodes where
  climbs := fun found => nomatch found
  deep := fun found => nomatch found

section Keeping

variable {db after : Database}

theorem child_of_lineage
    {nodes : OrderedMap Uuid Node}
    {id other : Uuid}
    {above : List Uuid}
    (lineage : Lineage nodes id above)
    (on : other ∈ above) :
    ∃ child row, nodes.get? child = some row ∧ row.parentId = some other := by
  induction above generalizing id with
  | nil => cases on
  | cons parent above inductionHypothesis =>
    obtain ⟨row, found, named, upper⟩ := lineage
    rcases mem_cons.mp on with rfl | further
    · exact ⟨id, row, found, named⟩
    · exact inductionHypothesis upper further

/-- Rows that only disappear leave the folders housed. -/
theorem Housed.less
    (housed : Housed db.nodes)
    (less : ∀ id later, after.nodes.get? id = some later → ∃ row,
      db.nodes.get? id = some row ∧ later.parentId = row.parentId ∧
        later.kind = row.kind ∧ later.heightBound = row.heightBound)
    (parents : ∀ id child childRow, db.nodes.get? child = some childRow →
      childRow.parentId = some id → ∀ row, db.nodes.get? id = some row →
        ∃ later, after.nodes.get? id = some later ∧
          later.parentId = row.parentId) :
    Housed after.nodes where
  climbs := by
    intro id later parentId laterParent found named parentFound folder
    obtain ⟨row, before, parent, kind, height⟩ := less id later found
    obtain ⟨parentRow, parentBefore, _, _, parentHeight⟩ :=
      less parentId laterParent parentFound
    rw [height, parentHeight]
    exact housed.climbs before (parent ▸ named) parentBefore (kind ▸ folder)
  deep := by
    intro id later found folder
    obtain ⟨row, before, parent, kind, _⟩ := less id later found
    obtain ⟨above, lineage, within⟩ := housed.deep before (kind ▸ folder)
    refine ⟨above, lineage_of_parents lineage ?_, within⟩
    intro other member otherRow otherFound
    rcases mem_cons.mp member with rfl | on
    · rw [before] at otherFound
      obtain rfl := Option.some.inj otherFound
      exact ⟨later, found, parent⟩
    · obtain ⟨child, childRow, childFound, named⟩ := child_of_lineage lineage on
      exact parents other child childRow childFound named otherRow otherFound

theorem lineage_raise
    {path : List Ancestor}
    {leafHeight id : Nat}
    {above : List Uuid}
    (lineage : Lineage db.nodes id above) :
    Lineage (raiseHeightBounds db path leafHeight).nodes id above := by
  refine lineage_of_parents lineage fun other _ row found => ?_
  refine ⟨{ row with
    heightBound := max row.heightBound (reach leafHeight other path) }, ?_, rfl⟩
  rw [get?_raiseHeightBounds, found]
  rfl

/-- Moving a node under a checked path leaves the folders housed. -/
theorem Housed.placed
    (housed : Housed db.nodes)
    (sound : Sound db)
    {id parentId : Uuid}
    {row : Node}
    {change : Node → Node}
    {path : List Ancestor}
    (found : db.nodes.get? id = some row)
    (held : HoldsPath db row.workspaceId parentId path)
    (notBelow : id ∉ nearestFirst path)
    (within : path.length + row.heightBound ≤ MAX_DEPTH)
    (parent : (change row).parentId = some parentId)
    (sameKind : (change row).kind = row.kind)
    (sameHeight : (change row).heightBound = row.heightBound) :
    Housed
      (raiseHeightBounds (db.setNode id change) path
        row.heightBound).nodes := by
  obtain ⟨above, isPath, lineage⟩ := held.lineage
  have still : ∀ other, other ≠ id →
      (db.setNode id change).nodes.get? other = db.nodes.get? other := by
    intro other differs
    rw [Database.setNode, get?_updateById, if_neg differs]
  have moved : (db.setNode id change).nodes.get? id = some (change row) := by
    rw [Database.setNode, get?_updateById, if_pos rfl, found]
    rfl
  have newPath : Lineage (db.setNode id change).nodes parentId above := by
    refine lineage_of_parents lineage fun other member otherRow there => ?_
    rw [still other fun same => notBelow (isPath ▸ same ▸ member)]
    exact ⟨otherRow, there, rfl⟩
  have long : (parentId :: above).length = path.length := by
    rw [← isPath, nearestFirst, length_reverse, length_map]
  refine
    { climbs := fun at_ named_ parentAt folder_ => @climbs_raise (db.setNode id change) path row.heightBound
        (fun row => row.kind = .folder)
        (.inr ⟨parentId, above, isPath, newPath⟩)
        (fun _ _ folder => folder) ?_ _ _ _ _ at_
        named_ parentAt folder_
      deep := ?_ }
  · intro child later itsParent parentRow there named parentThere folder
    rcases row_of_update found there with ⟨rfl, rfl⟩ | ⟨_, before⟩
    · rw [parent] at named
      obtain rfl := Option.some.inj named
      exact .inr ⟨sameHeight.le, notBelow, above, isPath⟩
    · rcases row_of_update found parentThere with ⟨rfl, rfl⟩ |
        ⟨_, parentBefore⟩
      · rw [sameHeight]
        exact .inl (housed.climbs before named found folder)
      · exact .inl (housed.climbs before named parentBefore folder)
  · -- The lineage of a folder is left, or goes over the moved one.
    have stands : ∀ ids folderId folderRow,
        db.nodes.get? folderId = some folderRow → folderRow.kind = .folder →
        Lineage db.nodes folderId ids → ∃ later,
          Lineage (db.setNode id change).nodes folderId later ∧
            (later.length ≤ ids.length ∨
              later.length + folderRow.heightBound ≤ MAX_DEPTH) := by
      intro ids
      induction ids with
      | nil =>
        intro folderId folderRow there folder upper
        by_cases same : folderId = id
        · subst same
          rw [found] at there
          obtain rfl := Option.some.inj there
          exact ⟨parentId :: above, ⟨_, moved, parent, newPath⟩,
            .inr (long ▸ within)⟩
        · obtain ⟨self, selfFound, isRoot⟩ := upper
          exact ⟨[], ⟨self, (still _ same).trans selfFound, isRoot⟩,
            .inl le_rfl⟩
      | cons next rest inductionHypothesis =>
        intro folderId folderRow there folder upper
        by_cases same : folderId = id
        · subst same
          rw [found] at there
          obtain rfl := Option.some.inj there
          exact ⟨parentId :: above, ⟨_, moved, parent, newPath⟩,
            .inr (long ▸ within)⟩
        · obtain ⟨self, selfFound, named, further⟩ := upper
          rw [there] at selfFound
          obtain rfl := Option.some.inj selfFound
          obtain ⟨nextRow, nextFound, nextFolder, _⟩ :=
            sound.nodeParent there named
          have lower := housed.climbs there named nextFound folder
          obtain ⟨later, itsLineage, short⟩ :=
            inductionHypothesis next nextRow nextFound nextFolder further
          refine ⟨next :: later,
            ⟨_, (still _ same).trans there, named, itsLineage⟩, ?_⟩
          simp only [length_cons]
          omega
    intro folderId later there folder
    obtain ⟨middle, inMiddle, rfl⟩ := row_of_raise there
    have before : ∃ folderRow, db.nodes.get? folderId = some folderRow ∧
        folderRow.kind = .folder := by
      rcases row_of_update found inMiddle with ⟨rfl, rfl⟩ | ⟨_, before⟩
      · exact ⟨row, found, sameKind.symm.trans folder⟩
      · exact ⟨middle, before, folder⟩
    obtain ⟨folderRow, folderFound, isFolder⟩ := before
    obtain ⟨ids, upper, deep⟩ := housed.deep folderFound isFolder
    obtain ⟨lineage_, itsLineage, short⟩ :=
      stands ids folderId folderRow folderFound isFolder upper
    refine ⟨lineage_, lineage_raise itsLineage, ?_⟩
    omega

/-- Inserting a node under a checked path leaves the folders housed. -/
theorem Housed.insert
    (housed : Housed db.nodes)
    (sound : Sound db)
    {id : Uuid}
    {row : Node}
    {path : List Ancestor}
    (fresh : db.nodes.get? id = none)
    (low : row.heightBound = 0)
    (off : id ∉ nearestFirst path)
    (lineage : nearestFirst path = [] ∨ ∃ parentId above,
      nearestFirst path = parentId :: above ∧
        Lineage db.nodes parentId above)
    (under : row.kind = .folder → ∀ parentId, row.parentId = some parentId →
      ∃ above, nearestFirst path = parentId :: above)
    (stands : row.kind = .folder → ∃ above,
      Lineage (db.nodes.set id row) id above ∧ above.length ≤ MAX_DEPTH) :
    Housed
      (raiseHeightBounds { db with nodes := db.nodes.set id row } path
        0).nodes := by
  have noChild : ∀ child childRow, db.nodes.get? child = some childRow →
      childRow.parentId ≠ some id := by
    intro child childRow found named
    obtain ⟨parent, there, _⟩ := sound.nodeParent found named
    rw [fresh] at there
    cases there
  have kept : ∀ {key above}, Lineage db.nodes key above →
      Lineage (db.nodes.set id row) key above := by
    intro key above itsLineage
    refine lineage_of_parents itsLineage fun other _ otherRow there => ?_
    exact ⟨otherRow, get?_set_of_found fresh there, rfl⟩
  have pathKept : nearestFirst path = [] ∨ ∃ parentId above,
      nearestFirst path = parentId :: above ∧
        Lineage (db.nodes.set id row) parentId above :=
    lineage.imp_right fun ⟨parentId, above, isPath, upper⟩ =>
      ⟨parentId, above, isPath, kept upper⟩
  refine
    { climbs := fun at_ named_ parentAt folder_ => @climbs_raise { db with nodes := db.nodes.set id row } path 0
        (fun row => row.kind = .folder) pathKept (fun _ _ folder => folder)
        ?_ _ _ _ _ at_ named_ parentAt folder_
      deep := ?_ }
  · intro child later itsParent parentRow there named parentThere folder
    rcases row_of_set there with ⟨rfl, rfl⟩ | ⟨_, before⟩
    · obtain ⟨above, isPath⟩ := under folder itsParent named
      exact .inr ⟨low.le, off, above, isPath⟩
    · rcases row_of_set parentThere with ⟨rfl, rfl⟩ | ⟨_, parentBefore⟩
      · exact absurd named (noChild child later before)
      · exact .inl (housed.climbs before named parentBefore folder)
  · intro key later there folder
    obtain ⟨middle, inMiddle, rfl⟩ := row_of_raise there
    have upper : ∃ above,
        Lineage (db.nodes.set id row) key above ∧ above.length ≤ MAX_DEPTH := by
      rcases row_of_set inMiddle with ⟨rfl, rfl⟩ | ⟨_, before⟩
      · exact stands folder
      · obtain ⟨above, itsLineage, within⟩ := housed.deep before folder
        exact ⟨above, kept itsLineage, within⟩
    obtain ⟨above, itsLineage, within⟩ := upper
    exact ⟨above,
      @lineage_raise { db with nodes := db.nodes.set id row } path 0 _ _
        itsLineage, within⟩

/-- Publishing a version leaves the folders housed. -/
theorem Housed.shown
    (housed : Housed db.nodes)
    {id versionId changeSeq : Nat}
    {row : Node}
    {path : List Ancestor}
    (found : db.nodes.get? id = some row)
    (place : path = [] ∨
      ∃ parentId above, row.parentId = some parentId ∧
        nearestFirst path = parentId :: above ∧
          Lineage db.nodes parentId above) :
    Housed
      (raiseHeightBounds
        (db.setNode id fun node =>
          { node with
            currentVersionId := some versionId
            changeSeq := some changeSeq })
        path 0).nodes := by
  have before : ∀ key later,
      (db.setNode id fun node =>
        { node with
          currentVersionId := some versionId
          changeSeq := some changeSeq }).nodes.get? key = some later →
      ∃ earlier, db.nodes.get? key = some earlier ∧
        later.heightBound = earlier.heightBound ∧
        later.parentId = earlier.parentId ∧ later.kind = earlier.kind := by
    intro key later there
    rcases row_of_update found there with ⟨rfl, rfl⟩ | ⟨_, same⟩
    · exact ⟨row, found, rfl, rfl, rfl⟩
    · exact ⟨later, same, rfl, rfl, rfl⟩
  have kept : ∀ {key above}, Lineage db.nodes key above →
      Lineage (db.setNode id fun node =>
        { node with
          currentVersionId := some versionId
          changeSeq := some changeSeq }).nodes key above := by
    intro key above lineage
    refine lineage_of_parents lineage fun other _ otherRow there => ?_
    rw [Database.setNode, get?_updateById, there]
    split
    · exact ⟨_, rfl, rfl⟩
    · exact ⟨otherRow, rfl, rfl⟩
  have pathKept : nearestFirst path = [] ∨ ∃ parentId above,
      nearestFirst path = parentId :: above ∧
        Lineage (db.setNode id fun node =>
          { node with
            currentVersionId := some versionId
            changeSeq := some changeSeq }).nodes parentId above := by
    rcases place with rfl | ⟨parentId, above, _, isPath, lineage⟩
    · exact .inl rfl
    · exact .inr ⟨parentId, above, isPath, kept lineage⟩
  refine
    { climbs := fun at_ named_ parentAt folder_ => @climbs_raise _ path 0 (fun row => row.kind = .folder) pathKept
        (fun _ _ folder => folder) ?_ _ _ _ _ at_
        named_ parentAt folder_
      deep := ?_ }
  · intro child later itsParent parentRow there named parentThere folder
    obtain ⟨earlier, earlierFound, height, parent, kind⟩ :=
      before child later there
    obtain ⟨parentEarlier, parentFound, parentHeight, _⟩ :=
      before itsParent parentRow parentThere
    rw [height, parentHeight]
    exact .inl (housed.climbs earlierFound (parent ▸ named) parentFound
      (kind ▸ folder))
  · intro key later there folder
    obtain ⟨middle, inMiddle, rfl⟩ := row_of_raise there
    obtain ⟨earlier, earlierFound, _, _, kind⟩ := before key middle inMiddle
    obtain ⟨above, lineage, within⟩ :=
      housed.deep earlierFound (kind.symm.trans folder)
    exact ⟨above, lineage_raise (kept lineage), within⟩

/-- Every change leaves the folders housed. -/
theorem Change.housed
    {care : Care}
    (sound : Sound db)
    (change : Change care db after)
    (housed : Housed db.nodes) :
    Housed after.nodes := by
  cases change with
  | workspace => exact housed
  | opened => exact housed
  | beside => exact housed
  | outbox => exact housed
  | object => exact housed
  | superseded => exact housed
  | upload => exact housed
  | marked change marks =>
    have mapped : ∀ id row, db.nodes.get? id = some row →
        (db.nodes.mapEntries change).get? id = some (change id row) := by
      intro id row found
      rw [get?_mapEntries, found]
      rfl
    refine @Housed.less db { db with nodes := db.nodes.mapEntries change }
      housed ?_ ?_
    · intro id later found
      rw [get?_mapEntries] at found
      obtain ⟨row, before, rfl⟩ := Option.map_eq_some_iff.mp found
      have itsMarks := marks id row before
      exact ⟨row, before, itsMarks.parentId, itsMarks.kind,
        itsMarks.heightBound⟩
    · intro id _ _ _ _ row found
      exact ⟨_, mapped id row found, (marks id row found).parentId⟩
  | placed id row change parentId path found held notBelow _ within parent _
      sameKind sameHeight =>
      exact housed.placed sound found held notBelow within parent sameKind
        sameHeight
  | grown id row path fresh workspace storage parent shown low within place =>
    cases named : row.parentId with
    | none =>
      obtain ⟨rfl, _⟩ := place named
      refine housed.insert sound fresh low (by simp [nearestFirst])
        (.inl rfl) ?_ ?_
      · intro _ parentId isParent
        rw [named] at isParent
        cases isParent
      · intro _
        exact ⟨[], ⟨row, by rw [get?_set, if_pos rfl], named⟩,
          Nat.zero_le _⟩
    | some parentId =>
      obtain ⟨above, isPath, lineage⟩ := (parent parentId named).lineage
      have apart : id ∉ nearestFirst path := by
        intro on
        rw [isPath] at on
        obtain ⟨other, there⟩ := found_of_lineage lineage on
        rw [fresh] at there
        cases there
      refine housed.insert sound fresh low apart
        (.inr ⟨parentId, above, isPath, lineage⟩) ?_ ?_
      · intro _ other isParent
        rw [named] at isParent
        obtain rfl := Option.some.inj isParent
        exact ⟨above, isPath⟩
      · intro _
        refine ⟨parentId :: above, ⟨row, ?_, named, ?_⟩, ?_⟩
        · rw [get?_set, if_pos rfl]
        · refine lineage_of_parents lineage fun other _ otherRow there => ?_
          exact ⟨otherRow, get?_set_of_found fresh there, rfl⟩
        · rw [← isPath]
          simpa [nearestFirst] using within
  | sprouted id row parentId path fresh workspace storage parent held kind low =>
    have file : row.kind ≠ .folder := by
      rw [kind]
      decide
    exact @Housed.insert db housed sound id row [] fresh low
      (by simp [nearestFirst]) (.inl rfl)
      (fun folder => absurd folder file) fun folder => absurd folder file
  | shown id row versionId changeSeq path found place =>
    exact housed.shown found place
  | begun => exact housed
  | readied => exact housed
  | released uploadId row status =>
    rw [(purges_releaseUpload db uploadId row status).nodes]
    exact housed
  | rebound => exact housed
  | expired version row =>
    rw [(purges_purgeReady db row.workspaceId version).nodes]
    exact housed
  | copied => exact housed
  | deleted gone leaves =>
    refine housed.less ?_ ?_
    · intro id later found
      obtain ⟨row, before, _, equal | equal⟩ := node_of_deleted found
      · exact ⟨row, before, by rw [equal], by rw [equal], by rw [equal]⟩
      · exact ⟨row, before, by rw [equal], by rw [equal], by rw [equal]⟩
    · intro id child childRow childFound named row found
      have stays : gone id row = false := by
        rw [Bool.eq_false_iff]
        intro goes
        exact leaves id row found goes child childRow childFound named
      obtain ⟨later, there, equal | equal⟩ := deleted_of_node found stays
      · exact ⟨later, there, by rw [equal]⟩
      · exact ⟨later, there, by rw [equal]⟩

theorem Trail.housed
    {care : Care}
    (sound : Sound db)
    (trail : Trail care db after)
    (housed : Housed db.nodes) :
    Housed after.nodes := by
  induction trail with
  | done => exact housed
  | more first change inductionHypothesis =>
    exact change.housed (sound.trail first) inductionHypothesis

end Keeping

/-- Tables where every node's chain ends at a root, before a walk's cap. -/
structure Reached (db : Database) : Prop where
  sound : Sound db
  housed : Housed db.nodes

theorem reached_empty : Reached .empty :=
  ⟨sound_empty, housed_empty⟩

theorem Reached.step
    {db : Database}
    (stands : Reached db)
    (op : Op) :
    Reached (step db op) :=
  have trail := step_trail stands.sound op
  ⟨stands.sound.trail trail, trail.housed stands.sound stands.housed⟩

theorem Reached.run
    {db : Database}
    (stands : Reached db)
    (ops : List Op) :
    Reached (run db ops) :=
  keeps_of_step Reached (fun _ op stands => stands.step op) ops stands

section Walking

variable {db : Database}

theorem Reached.lineage
    (stands : Reached db)
    {id : Uuid}
    {row : Node}
    (found : db.nodes.get? id = some row) :
    ∃ above, Lineage db.nodes id above ∧ above.length ≤ MAX_DEPTH + 1 := by
  cases named : row.parentId with
  | none => exact ⟨[], ⟨row, found, named⟩, Nat.zero_le _⟩
  | some parentId =>
    obtain ⟨parent, there, folder, _⟩ := stands.sound.nodeParent found named
    obtain ⟨above, lineage, within⟩ := stands.housed.deep there folder
    refine ⟨parentId :: above, ⟨row, found, named, lineage⟩, ?_⟩
    simp only [length_cons]
    omega

theorem Reached.walks
    (stands : Reached db)
    {id : Uuid}
    {row : Node}
    (found : db.nodes.get? id = some row) :
    ∃ walked, walk db id = some walked := by
  obtain ⟨above, lineage, within⟩ := stands.lineage found
  obtain ⟨self, rows, climb, same⟩ := climb_of_lineage lineage
  refine ⟨walkOf self rows, walk_eq_some.mpr ⟨self, rows, climb, ?_, rfl⟩⟩
  have fits : MAX_DEPTH + 2 ≤ WALK_CAP := by decide
  simp only [length_cons]
  omega

/--
In every run, whatever it does, a chain of parents ends at a root, no node under
itself: a folder stands within the depth, and bounds each folder in it; so a
walk from a node always answers.
-/
theorem chains_end
    (ops : List Op)
    {id : Uuid}
    {row : Node}
    (found : (run .empty ops).nodes.get? id = some row) :
    ∃ above, Lineage (run .empty ops).nodes id above ∧ id ∉ above ∧
      above.length ≤ (if row.kind = .folder then MAX_DEPTH else MAX_DEPTH + 1) ∧
      (∀ parentId parent, row.kind = .folder → row.parentId = some parentId →
        (run .empty ops).nodes.get? parentId = some parent →
          row.heightBound < parent.heightBound) ∧
      ∃ walked, walk (run .empty ops) id = some walked := by
  have stands := reached_empty.run ops
  obtain ⟨above, lineage, within⟩ := stands.lineage found
  refine ⟨above, lineage, not_mem_lineage lineage, ?_, ?_, stands.walks found⟩
  · split
    · next folder =>
        obtain ⟨again, itsLineage, deep⟩ := stands.housed.deep found folder
        rwa [lineage_unique lineage itsLineage]
    · exact within
  · exact fun _ _ folder named there =>
      stands.housed.climbs found named there folder

theorem chains_end_tangling :
    ∃ walked, walk (run .empty tangling) 101 = some walked := by
  have found : (run .empty tangling).nodes.get? 101 = some
      (newNodeRow 1 (some 100) .file 2 1 none) := by
    decide
  obtain ⟨_, _, _, _, _, reached⟩ := chains_end tangling found
  exact reached

end Walking

end Drive

end HushOS
