import HushOS.Drive.Published

namespace HushOS

open Toolkit List OrderedMap

namespace Drive

/-!
# Heights

A folder's height bound is above that of every folder and every visible file
right under it, and no bound is above the depth: so parents lead to a root
within the depth, and every walk and every query bounded by it ends.
-/

section Rising

/-- How high a path, nearest first, asks a node over a leaf to be. -/
def rise (leafHeight : Nat) (id : Uuid) : List Uuid → Nat
  | [] => 0
  | ancestor :: above =>
    max (if ancestor = id then 1 + leafHeight else 0)
      (rise (leafHeight + 1) id above)

theorem rise_eq_zero
    {leafHeight id : Nat}
    {ids : List Uuid}
    (off : id ∉ ids) :
    rise leafHeight id ids = 0 := by
  induction ids generalizing leafHeight with
  | nil => rfl
  | cons ancestor above inductionHypothesis =>
    rw [mem_cons, not_or] at off
    simp [rise, Ne.symm off.1, inductionHypothesis off.2]

theorem rise_le (leafHeight id : Nat) (ids : List Uuid) :
    rise leafHeight id ids ≤ ids.length + leafHeight := by
  induction ids generalizing leafHeight with
  | nil => exact Nat.zero_le _
  | cons ancestor above inductionHypothesis =>
    have rest := inductionHypothesis (leafHeight + 1)
    simp only [rise, length_cons]
    split
    · omega
    · omega

theorem lt_rise_head (leafHeight parentId : Nat) (above : List Uuid) :
    leafHeight < rise leafHeight parentId (parentId :: above) := by
  simp only [rise, ↓reduceIte]
  omega

theorem rise_append
    (leafHeight id top : Nat)
    (ids : List Uuid) :
    rise leafHeight id (ids ++ [top]) =
      max (rise leafHeight id ids)
        (if top = id then ids.length + 1 + leafHeight else 0) := by
  induction ids generalizing leafHeight with
  | nil => simp [rise, Nat.add_comm]
  | cons ancestor above inductionHypothesis =>
    simp only [cons_append, rise, inductionHypothesis,
      length_cons]
    have same : above.length + 1 + (leafHeight + 1) =
        above.length + 1 + 1 + leafHeight := by
      omega
    rw [same, Nat.max_assoc]

theorem reach_eq_rise (leafHeight id : Nat) (path : List Ancestor) :
    reach leafHeight id path = rise leafHeight id (nearestFirst path) := by
  induction path with
  | nil => rfl
  | cons ancestor below inductionHypothesis =>
    have split_ : nearestFirst (ancestor :: below) =
        nearestFirst below ++ [ancestor.id] := by
      simp [nearestFirst]
    have length : (nearestFirst below).length = below.length := by
      simp [nearestFirst]
    rw [split_, rise_append, ← inductionHypothesis, reach, length,
      Nat.max_comm]

/-- A parent on the path rises higher than its child. -/
theorem rise_lt_rise
    {nodes : OrderedMap Uuid Node}
    {leafHeight id child parentId : Nat}
    {above : List Uuid}
    {row : Node}
    (lineage : Lineage nodes id above)
    (found : nodes.get? child = some row)
    (named : row.parentId = some parentId)
    (on : child ∈ id :: above) :
    rise leafHeight child (id :: above) <
      rise leafHeight parentId (id :: above) := by
  induction above generalizing id leafHeight with
  | nil =>
    obtain ⟨other, otherFound, isRoot⟩ := lineage
    rw [mem_singleton] at on
    rw [← on, found] at otherFound
    rw [← Option.some.inj otherFound, named] at isRoot
    cases isRoot
  | cons next rest inductionHypothesis =>
    obtain ⟨other, otherFound, itsParent, upper⟩ := lineage
    have later : rise (leafHeight + 1) child (next :: rest) <
        rise leafHeight parentId (id :: next :: rest) := by
      have upTo : rise (leafHeight + 1) parentId (next :: rest) ≤
          rise leafHeight parentId (id :: next :: rest) :=
        Nat.le_max_right _ _
      by_cases further : child ∈ next :: rest
      · exact (inductionHypothesis upper further).trans_le upTo
      · rw [rise_eq_zero further]
        have isChild : child = id := by
          rcases mem_cons.mp on with same | other
          · exact same
          · exact absurd other further
        rw [← isChild, found] at otherFound
        rw [← Option.some.inj otherFound, named] at itsParent
        obtain rfl := Option.some.inj itsParent
        exact (Nat.zero_le _).trans_lt
          ((lt_rise_head (leafHeight + 1) parentId rest).trans_le upTo)
    rw [rise]
    split
    · next same =>
        rw [← same, otherFound] at found
        rw [← Option.some.inj found, itsParent] at named
        obtain rfl := Option.some.inj named
        have higher := lt_rise_head (leafHeight + 1) next rest
        have upTo : rise (leafHeight + 1) next (next :: rest) ≤
            rise leafHeight next (id :: next :: rest) :=
          Nat.le_max_right _ _
        omega
    · omega

end Rising

section Treed

/-- A node that its parent's bound counts: a folder, or a visible file. -/
def Node.weighs (row : Node) : Prop :=
  row.kind = .folder ∨ row.seen

/-- The bounds of a workspace's tree. -/
structure Treed (nodes : OrderedMap Uuid Node) : Prop where
  climbs : ∀ {id row parentId parent}, nodes.get? id = some row →
    row.parentId = some parentId → nodes.get? parentId = some parent →
      row.weighs → row.heightBound < parent.heightBound
  capped : ∀ {id row}, nodes.get? id = some row →
    row.heightBound ≤ MAX_DEPTH
  flat : ∀ {id row}, nodes.get? id = some row → row.kind = .file →
    row.heightBound = 0
  oneRoot : ∀ {id other row otherRow}, nodes.get? id = some row →
    nodes.get? other = some otherRow → row.parentId = none →
      otherRow.parentId = none → row.workspaceId = otherRow.workspaceId →
        id = other

/-- A path of folders to raise, over a leaf within the depth. -/
structure Raises
    (nodes : OrderedMap Uuid Node)
    (ids : List Uuid)
    (leafHeight : Nat) : Prop where
  lineage : ids = [] ∨ ∃ parentId above, ids = parentId :: above ∧
    Lineage nodes parentId above
  folders : ∀ id ∈ ids, ∀ row, nodes.get? id = some row → row.kind = .folder
  within : ids.length + leafHeight ≤ MAX_DEPTH

/-- Rows that only disappear from sight leave a tree. -/
theorem Treed.less
    {nodes after : OrderedMap Uuid Node}
    (tree : Treed nodes)
    (less : ∀ id later, after.get? id = some later → ∃ row,
      nodes.get? id = some row ∧ later.parentId = row.parentId ∧
        later.workspaceId = row.workspaceId ∧ later.kind = row.kind ∧
        later.heightBound = row.heightBound ∧
        (later.seen → row.seen)) :
    Treed after where
  climbs := by
    intro id later parentId laterParent found named parentFound weighs
    obtain ⟨row, before, parent, _, kind, height, seen⟩ := less id later found
    obtain ⟨parentRow, parentBefore, _, _, _, parentHeight, _⟩ :=
      less parentId laterParent parentFound
    rw [height, parentHeight]
    refine tree.climbs before (parent ▸ named) parentBefore ?_
    rcases weighs with folder | visible
    · exact .inl (kind ▸ folder)
    · exact .inr (seen visible)
  capped := by
    intro id later found
    obtain ⟨row, before, _, _, _, height, _⟩ := less id later found
    exact height ▸ tree.capped before
  flat := by
    intro id later found file
    obtain ⟨row, before, _, _, kind, height, _⟩ := less id later found
    exact height ▸ tree.flat before (kind ▸ file)
  oneRoot := by
    intro id other later otherLater found otherFound isRoot otherRoot same
    obtain ⟨row, before, parent, inside, _⟩ := less id later found
    obtain ⟨otherRow, otherBefore, otherParent, otherInside, _⟩ :=
      less other otherLater otherFound
    refine tree.oneRoot before otherBefore (parent ▸ isRoot)
      (otherParent ▸ otherRoot) ?_
    rw [← inside, ← otherInside]
    exact same

variable {db : Database} {path : List Ancestor}

theorem row_of_raise
    {leafHeight id : Nat}
    {later : Node}
    (found : (raiseHeightBounds db path leafHeight).nodes.get? id =
      some later) :
    ∃ row, db.nodes.get? id = some row ∧
      later = { row with
        heightBound :=
          max row.heightBound (rise leafHeight id (nearestFirst path)) } := by
  rw [get?_raiseHeightBounds, reach_eq_rise] at found
  obtain ⟨row, before, equal⟩ := Option.map_eq_some_iff.mp found
  exact ⟨row, before, equal.symm⟩

/--
Raising a path leaves every child that weighs lower than its parent, also one
child right under the path that is no higher than the leaf.
-/
theorem climbs_raise
    {db : Database}
    {path : List Ancestor}
    {leafHeight : Nat}
    {weighs : Node → Prop}
    (lineage : nearestFirst path = [] ∨ ∃ parentId above,
      nearestFirst path = parentId :: above ∧
        Lineage db.nodes parentId above)
    (levels : ∀ row height,
      weighs { row with heightBound := height } → weighs row)
    (climbs : ∀ id row parentId parent, db.nodes.get? id = some row →
      row.parentId = some parentId →
      db.nodes.get? parentId = some parent → weighs row →
        row.heightBound < parent.heightBound ∨
          (row.heightBound ≤ leafHeight ∧ id ∉ nearestFirst path ∧
            ∃ above, nearestFirst path = parentId :: above))
    {id parentId : Uuid}
    {later laterParent : Node}
    (found : (raiseHeightBounds db path leafHeight).nodes.get? id =
      some later)
    (named : later.parentId = some parentId)
    (parentFound : (raiseHeightBounds db path leafHeight).nodes.get?
      parentId = some laterParent)
    (weighed : weighs later) :
    later.heightBound < laterParent.heightBound := by
  obtain ⟨row, before, rfl⟩ := row_of_raise found
  obtain ⟨parent, parentBefore, rfl⟩ := row_of_raise parentFound
  have asked : rise leafHeight id (nearestFirst path) = 0 ∨
      rise leafHeight id (nearestFirst path) <
        rise leafHeight parentId (nearestFirst path) := by
    by_cases on : id ∈ nearestFirst path
    · rcases lineage with empty | ⟨first, above, isPath, itsLineage⟩
      · rw [empty] at on
        cases on
      · rw [isPath] at on ⊢
        exact .inr (rise_lt_rise itsLineage before named on)
    · exact .inl (rise_eq_zero on)
  rcases climbs id row parentId parent before named parentBefore
      (levels row _ weighed) with lower | ⟨low, off, above, isPath⟩
  · rcases asked with nothing | less
    · simp only [nothing, Nat.max_zero]
      exact lower.trans_le (Nat.le_max_left _ _)
    · exact max_lt_max lower less
  · have higher := lt_rise_head leafHeight parentId above
    rw [← isPath] at higher
    simp only [rise_eq_zero off, Nat.max_zero]
    exact (low.trans_lt higher).trans_le (Nat.le_max_right _ _)

/--
Raising a path within the depth leaves a tree, also with one child right under
the path that is no higher than the leaf.
-/
theorem treed_raise
    {leafHeight : Nat}
    (raises : Raises db.nodes (nearestFirst path) leafHeight)
    (climbs : ∀ id row parentId parent, db.nodes.get? id = some row →
      row.parentId = some parentId →
      db.nodes.get? parentId = some parent → row.weighs →
        row.heightBound < parent.heightBound ∨
          (row.heightBound ≤ leafHeight ∧ id ∉ nearestFirst path ∧
            ∃ above, nearestFirst path = parentId :: above))
    (capped : ∀ id row, db.nodes.get? id = some row →
      row.heightBound ≤ MAX_DEPTH)
    (flat : ∀ id row, db.nodes.get? id = some row → row.kind = .file →
      row.heightBound = 0)
    (oneRoot : ∀ id other row otherRow, db.nodes.get? id = some row →
      db.nodes.get? other = some otherRow → row.parentId = none →
        otherRow.parentId = none →
        row.workspaceId = otherRow.workspaceId → id = other) :
    Treed (raiseHeightBounds db path leafHeight).nodes := by
  constructor
  · intro id later parentId laterParent found named parentFound weighs
    exact climbs_raise raises.lineage (fun _ _ weighed => weighed) climbs found
      named parentFound weighs
  · intro id later found
    obtain ⟨row, before, rfl⟩ := row_of_raise found
    exact Nat.max_le.mpr ⟨capped id row before,
      (rise_le _ _ _).trans raises.within⟩
  · intro id later found file
    obtain ⟨row, before, rfl⟩ := row_of_raise found
    have off : id ∉ nearestFirst path := by
      intro on
      have folder := raises.folders id on row before
      rw [show row.kind = .file from file] at folder
      cases folder
    simp only [rise_eq_zero off, Nat.max_zero]
    exact flat id row before file
  · intro id other later otherLater found otherFound isRoot otherRoot same
    obtain ⟨row, before, rfl⟩ := row_of_raise found
    obtain ⟨otherRow, otherBefore, rfl⟩ := row_of_raise otherFound
    exact oneRoot id other row otherRow before otherBefore isRoot otherRoot
      same

theorem row_of_set
    {nodes : OrderedMap Uuid Node}
    {id key : Uuid}
    {row later : Node}
    (found : (nodes.set id row).get? key = some later) :
    (key = id ∧ later = row) ∨ (key ≠ id ∧ nodes.get? key = some later) := by
  rcases get?_set_cases found with ⟨same, equal⟩ | ⟨other, before⟩
  · exact .inl ⟨same, equal⟩
  · exact .inr ⟨other, before⟩

theorem row_of_update
    {id key : Uuid}
    {row later : Node}
    {change : Node → Node}
    (there : db.nodes.get? id = some row)
    (found : (db.setNode id change).nodes.get? key = some later) :
    (key = id ∧ later = change row) ∨
      (key ≠ id ∧ db.nodes.get? key = some later) := by
  rw [Database.setNode, get?_updateById] at found
  split at found
  · next same =>
      subst same
      rw [there] at found
      exact .inl ⟨rfl, (Option.some.inj found).symm⟩
  · next other => exact .inr ⟨other, found⟩

/-- Everything above a folder is a folder. -/
theorem folders_of_lineage
    (sound : Sound db)
    {ids : List Uuid}
    {id : Uuid}
    (lineage : Lineage db.nodes id ids)
    (folder : ∀ row, db.nodes.get? id = some row → row.kind = .folder) :
    ∀ other ∈ id :: ids, ∀ row, db.nodes.get? other = some row →
      row.kind = .folder := by
  induction ids generalizing id with
  | nil =>
    intro other member row found
    rw [mem_singleton] at member
    exact folder row (member ▸ found)
  | cons next rest inductionHypothesis =>
    intro other member row found
    obtain ⟨self, selfFound, named, upper⟩ := lineage
    rcases mem_cons.mp member with same | others
    · exact folder row (same ▸ found)
    · refine inductionHypothesis upper ?_ other others row found
      intro nextRow nextFound
      obtain ⟨parent, parentFound, isFolder, _⟩ :=
        sound.nodeParent selfFound named
      rw [nextFound] at parentFound
      exact Option.some.inj parentFound ▸ isFolder

/-- Raising along a lineage raises each folder on it. -/
theorem raises_of_lineage
    {db after : Database}
    (sound : Sound db)
    {leafHeight parentId : Nat}
    {above : List Uuid}
    (isPath : nearestFirst path = parentId :: above)
    (lineage : Lineage db.nodes parentId above)
    (folder : ∀ row, db.nodes.get? parentId = some row → row.kind = .folder)
    (within : path.length + leafHeight ≤ MAX_DEPTH)
    (same : ∀ id ∈ nearestFirst path, ∀ row, db.nodes.get? id = some row →
      ∃ later, after.nodes.get? id = some later ∧
        later.parentId = row.parentId ∧ later.kind = row.kind) :
    Raises after.nodes (nearestFirst path) leafHeight where
  lineage := by
    refine .inr ⟨parentId, above, isPath,
      lineage_of_parents lineage fun other member row found => ?_⟩
    obtain ⟨later, there, parent, _⟩ := same other (isPath ▸ member) row found
    exact ⟨later, there, parent⟩
  folders := by
    intro id member later there
    rw [isPath] at member
    obtain ⟨row, found⟩ := found_of_lineage lineage member
    obtain ⟨other, otherThere, _, kind⟩ := same id (isPath ▸ member) row found
    rw [there] at otherThere
    obtain rfl := Option.some.inj otherThere
    exact kind.trans (folders_of_lineage sound lineage folder id member row
      found)
  within := by
    simpa [nearestFirst] using within

theorem raises_nil {nodes : OrderedMap Uuid Node} :
    Raises nodes (nearestFirst []) 0 where
  lineage := .inl rfl
  folders := fun _ member => nomatch member
  within := Nat.zero_le _

/-- Moving a node under a checked path leaves a tree. -/
theorem Treed.placed
    (tree : Treed db.nodes)
    (sound : Sound db)
    {id parentId : Uuid}
    {row : Node}
    {change : Node → Node}
    (found : db.nodes.get? id = some row)
    (held : HoldsPath db row.workspaceId parentId path)
    (notBelow : id ∉ nearestFirst path)
    (within : path.length + row.heightBound ≤ MAX_DEPTH)
    (parent : (change row).parentId = some parentId)
    (sameKind : (change row).kind = row.kind)
    (sameHeight : (change row).heightBound = row.heightBound) :
    Treed
      (raiseHeightBounds (db.setNode id change) path
        row.heightBound).nodes := by
  obtain ⟨above, isPath, lineage⟩ := held.lineage
  obtain ⟨folderRow, folderFound, folder, _⟩ := held.folder
  refine treed_raise
    (raises_of_lineage sound isPath lineage ?_ within ?_) ?_ ?_ ?_ ?_
  · intro other there
    rw [folderFound] at there
    exact Option.some.inj there ▸ folder
  · intro other member otherRow there
    have differs : other ≠ id := fun same => notBelow (same ▸ member)
    refine ⟨otherRow, ?_, rfl, rfl⟩
    rw [Database.setNode, get?_updateById, if_neg differs]
    exact there
  · intro child later itsParent parentRow there named parentThere weighs
    rcases row_of_update found there with ⟨rfl, rfl⟩ | ⟨_, before⟩
    · rw [parent] at named
      obtain rfl := Option.some.inj named
      exact .inr ⟨sameHeight.le, notBelow, above, isPath⟩
    · rcases row_of_update found parentThere with ⟨rfl, rfl⟩ |
        ⟨_, parentBefore⟩
      · rw [sameHeight]
        exact .inl (tree.climbs before named found weighs)
      · exact .inl (tree.climbs before named parentBefore weighs)
  · intro key later there
    rcases row_of_update found there with ⟨rfl, rfl⟩ | ⟨_, before⟩
    · exact sameHeight ▸ tree.capped found
    · exact tree.capped before
  · intro key later there file
    rcases row_of_update found there with ⟨rfl, rfl⟩ | ⟨_, before⟩
    · rw [sameHeight]
      exact tree.flat found (sameKind ▸ file)
    · exact tree.flat before file
  · intro key other later otherLater there otherThere isRoot otherRoot same
    rcases row_of_update found there with ⟨rfl, rfl⟩ | ⟨_, before⟩
    · rw [parent] at isRoot
      cases isRoot
    · rcases row_of_update found otherThere with ⟨rfl, rfl⟩ |
        ⟨_, otherBefore⟩
      · rw [parent] at otherRoot
        cases otherRoot
      · exact tree.oneRoot before otherBefore isRoot otherRoot same

/-- Inserting a node under a checked path leaves a tree. -/
theorem Treed.insert
    {db : Database}
    (tree : Treed db.nodes)
    (sound : Sound db)
    {id : Uuid}
    {row : Node}
    {path : List Ancestor}
    (fresh : db.nodes.get? id = none)
    (raises : Raises (db.nodes.set id row) (nearestFirst path) 0)
    (low : row.heightBound = 0)
    (off : id ∉ nearestFirst path)
    (under : row.weighs → ∀ parentId, row.parentId = some parentId →
      ∃ above, nearestFirst path = parentId :: above)
    (onlyRoot : row.parentId = none →
      ∀ other otherRow, db.nodes.get? other = some otherRow →
        otherRow.workspaceId = row.workspaceId → otherRow.parentId ≠ none) :
    Treed
      (raiseHeightBounds { db with nodes := db.nodes.set id row } path
        0).nodes := by
  have noChild : ∀ child childRow, db.nodes.get? child = some childRow →
      childRow.parentId ≠ some id := by
    intro child childRow found named
    obtain ⟨parent, there, _⟩ := sound.nodeParent found named
    rw [fresh] at there
    cases there
  refine treed_raise raises ?_ ?_ ?_ ?_
  · intro child later itsParent parentRow there named parentThere weighs
    rcases row_of_set there with ⟨rfl, rfl⟩ | ⟨_, before⟩
    · obtain ⟨above, isPath⟩ := under weighs itsParent named
      exact .inr ⟨low.le, off, above, isPath⟩
    · rcases row_of_set parentThere with ⟨rfl, rfl⟩ | ⟨_, parentBefore⟩
      · exact absurd named (noChild child later before)
      · exact .inl (tree.climbs before named parentBefore weighs)
  · intro key later there
    rcases row_of_set there with ⟨rfl, rfl⟩ | ⟨_, before⟩
    · rw [low]
      exact Nat.zero_le _
    · exact tree.capped before
  · intro key later there file
    rcases row_of_set there with ⟨rfl, rfl⟩ | ⟨_, before⟩
    · exact low
    · exact tree.flat before file
  · intro key other later otherLater there otherThere isRoot otherRoot same
    rcases row_of_set there with ⟨rfl, rfl⟩ | ⟨_, before⟩
    · rcases row_of_set otherThere with ⟨rfl, _⟩ | ⟨_, otherBefore⟩
      · rfl
      · exact absurd otherRoot
          (onlyRoot isRoot other otherLater otherBefore same.symm)
    · rcases row_of_set otherThere with ⟨rfl, rfl⟩ | ⟨_, otherBefore⟩
      · exact absurd isRoot (onlyRoot otherRoot key later before same)
      · exact tree.oneRoot before otherBefore isRoot otherRoot same

/-- Publishing a version on a checked path leaves a tree. -/
theorem Treed.shown
    (tree : Treed db.nodes)
    (sound : Sound db)
    {id versionId changeSeq : Nat}
    {row : Node}
    (found : db.nodes.get? id = some row)
    (place : path = [] ∨
      ∃ parentId above, row.parentId = some parentId ∧
        nearestFirst path = parentId :: above ∧
          Lineage db.nodes parentId above)
    (within : path.length ≤ MAX_DEPTH)
    (weighed : path = [] → row.seen ∨ row.parentId = none) :
    Treed
      (raiseHeightBounds
        (db.setNode id fun node =>
          { node with
            currentVersionId := some versionId
            changeSeq := some changeSeq })
        path 0).nodes := by
  have raises : Raises
      (db.setNode id fun node =>
        { node with
          currentVersionId := some versionId
          changeSeq := some changeSeq }).nodes
      (nearestFirst path) 0 := by
    rcases place with rfl | ⟨parentId, above, named, isPath, lineage⟩
    · exact raises_nil
    · refine raises_of_lineage sound isPath lineage ?_ within ?_
      · intro parentRow parentFound
        obtain ⟨parent, there, folder, _⟩ := sound.nodeParent found named
        rw [parentFound] at there
        exact Option.some.inj there ▸ folder
      · intro other _ otherRow there
        by_cases same : other = id
        · subst same
          rw [Database.setNode, get?_updateById, if_pos rfl, there]
          exact ⟨_, rfl, rfl, rfl⟩
        · refine ⟨otherRow, ?_, rfl, rfl⟩
          rw [Database.setNode, get?_updateById, if_neg same]
          exact there
  have height : ∀ key later,
      (db.setNode id fun node =>
        { node with
          currentVersionId := some versionId
          changeSeq := some changeSeq }).nodes.get? key = some later →
      ∃ before, db.nodes.get? key = some before ∧
        later.heightBound = before.heightBound ∧
        later.parentId = before.parentId ∧ later.kind = before.kind ∧
        later.workspaceId = before.workspaceId ∧
        (key ≠ id → later = before) := by
    intro key later there
    rcases row_of_update found there with ⟨rfl, rfl⟩ | ⟨_, before⟩
    · exact ⟨row, found, rfl, rfl, rfl, rfl, fun differs => absurd rfl differs⟩
    · exact ⟨later, before, rfl, rfl, rfl, rfl, fun _ => rfl⟩
  refine treed_raise raises ?_ ?_ ?_ ?_
  · intro child later itsParent parentRow there named parentThere weighs
    obtain ⟨before, childFound, sameHeight, sameParent, sameKind, _, equal⟩ :=
      height child later there
    obtain ⟨parent, parentFound, parentHeight, _⟩ :=
      height itsParent parentRow parentThere
    rw [sameHeight, parentHeight]
    rw [sameParent] at named
    by_cases weighed_ : before.weighs
    · exact .inl (tree.climbs childFound named parentFound weighed_)
    · have isId : child = id := by
        by_cases same : child = id
        · exact same
        · exact absurd (equal same ▸ weighs) weighed_
      subst isId
      rw [found] at childFound
      obtain rfl := Option.some.inj childFound
      have file : row.kind = .file := by
        cases kind : row.kind with
        | file => rfl
        | folder => exact absurd (.inl kind) weighed_
      rcases place with empty | ⟨parentId, above, itsParent, isPath, _⟩
      · rcases weighed empty with seen | isRoot
        · exact absurd (.inr seen) weighed_
        · rw [isRoot] at named
          cases named
      · rw [itsParent] at named
        obtain rfl := Option.some.inj named
        refine .inr ⟨(tree.flat found file).le, ?_, above, isPath⟩
        intro on
        have folder := raises.folders child on later there
        rw [sameKind, file] at folder
        cases folder
  · intro key later there
    obtain ⟨before, beforeFound, same, _⟩ := height key later there
    exact same ▸ tree.capped beforeFound
  · intro key later there file
    obtain ⟨before, beforeFound, same, _, kind, _⟩ := height key later there
    exact same ▸ tree.flat beforeFound (kind ▸ file)
  · intro key other later otherLater there otherThere isRoot otherRoot same
    obtain ⟨before, beforeFound, _, parent, _, inside, _⟩ :=
      height key later there
    obtain ⟨otherBefore, otherFound, _, otherParent, _, otherInside, _⟩ :=
      height other otherLater otherThere
    refine tree.oneRoot beforeFound otherFound (parent ▸ isRoot)
      (otherParent ▸ otherRoot) ?_
    rw [← inside, ← otherInside]
    exact same

/-- Every shallow change leaves a tree. -/
theorem Change.treed
    {care : Care}
    {db after : Database}
    (sound : Sound db)
    (change : Change care db after)
    (shallow : care.shallow)
    (tree : Treed db.nodes) :
    Treed after.nodes := by
  cases change with
  | workspace => exact tree
  | opened => exact tree
  | beside => exact tree
  | outbox => exact tree
  | object => exact tree
  | superseded => exact tree
  | upload => exact tree
  | marked change marks =>
    refine tree.less fun id later found => ?_
    rw [get?_mapEntries] at found
    obtain ⟨row, before, rfl⟩ := Option.map_eq_some_iff.mp found
    have itsMarks := marks id row before
    exact ⟨row, before, itsMarks.parentId, itsMarks.workspaceId,
      itsMarks.kind, itsMarks.heightBound, itsMarks.seen shallow⟩
  | placed id row change parentId path found held notBelow _ within parent _
      sameKind sameHeight =>
      exact tree.placed sound found held notBelow within parent sameKind
        sameHeight
  | grown id row path fresh workspace storage parent shown low within place =>
    have off : row.parentId ≠ none → id ∉ nearestFirst path ∧
        ∃ parentId above, row.parentId = some parentId ∧
          nearestFirst path = parentId :: above ∧
          Raises (db.nodes.set id row) (nearestFirst path) 0 := by
      intro notRoot
      obtain ⟨parentId, named⟩ := Option.ne_none_iff_exists'.mp notRoot
      have held := parent parentId named
      obtain ⟨above, isPath, lineage⟩ := held.lineage
      obtain ⟨folderRow, folderFound, folder, _⟩ := held.folder
      have apart : id ∉ nearestFirst path := by
        intro on
        rw [isPath] at on
        obtain ⟨other, there⟩ := found_of_lineage lineage on
        rw [fresh] at there
        cases there
      refine ⟨apart, parentId, above, named, isPath, ?_⟩
      have raises : Raises
          ({ db with nodes := db.nodes.set id row } : Database).nodes
          (nearestFirst path) 0 := by
        refine raises_of_lineage sound isPath lineage ?_ within ?_
        · intro other there
          rw [folderFound] at there
          exact Option.some.inj there ▸ folder
        · intro other _ otherRow there
          exact ⟨otherRow, get?_set_of_found fresh there, rfl,
            rfl⟩
      exact raises
    by_cases isRoot : row.parentId = none
    · obtain ⟨rfl, _, alone⟩ := place isRoot
      refine tree.insert sound fresh raises_nil low (by simp [nearestFirst])
        ?_ fun _ => alone
      intro _ parentId named
      rw [isRoot] at named
      cases named
    · obtain ⟨apart, parentId, above, named, isPath, raises⟩ := off isRoot
      refine tree.insert sound fresh raises low apart ?_
        fun root => absurd root isRoot
      intro _ other otherNamed
      rw [named] at otherNamed
      exact ⟨above, Option.some.inj otherNamed ▸ isPath⟩
  | sprouted id row parentId path fresh workspace storage parent held kind low
      hidden =>
      have inserted : Treed
          (raiseHeightBounds { db with nodes := db.nodes.set id row } []
            0).nodes := by
        refine tree.insert sound fresh raises_nil low
          (by simp [nearestFirst]) ?_ ?_
        · rintro (folder | seen) _ _
          · rw [kind] at folder
            cases folder
          · exact absurd hidden seen.1
        · intro isRoot
          rw [parent] at isRoot
          cases isRoot
      exact inserted
  | shown id row versionId changeSeq path found place careful =>
    obtain ⟨within, weighed⟩ := careful shallow
    exact tree.shown sound found place within weighed
  | begun => exact tree
  | readied => exact tree
  | released uploadId row status =>
    rw [(purges_releaseUpload db uploadId row status).nodes]
    exact tree
  | rebound => exact tree
  | expired version row =>
    rw [(purges_purgeReady db row.workspaceId version).nodes]
    exact tree
  | copied => exact tree
  | deleted gone =>
    refine tree.less fun id later found => ?_
    obtain ⟨row, before, _, equal | equal⟩ := node_of_deleted found
    · exact ⟨row, before, by rw [equal], by rw [equal], by rw [equal],
        by rw [equal], fun seen => by rwa [equal] at seen⟩
    · exact ⟨row, before, by rw [equal], by rw [equal], by rw [equal],
        by rw [equal], fun seen => by rwa [equal] at seen⟩

theorem Trail.treed
    {care : Care}
    {db after : Database}
    (sound : Sound db)
    (trail : Trail care db after)
    (shallow : care.shallow)
    (tree : Treed db.nodes) :
    Treed after.nodes := by
  induction trail with
  | done => exact tree
  | more first change inductionHypothesis =>
    exact change.treed (sound.trail first) shallow inductionHypothesis

end Treed

section Reaching

variable {id : Uuid} {nodes : OrderedMap Uuid Node} {above : List Uuid} {row : Node}
  {steps : Nat}

/-- A node has one lineage. -/
theorem lineage_unique
    {above other : List Uuid}
    (lineage : Lineage nodes id above)
    (again : Lineage nodes id other) :
    above = other := by
  induction above generalizing id other with
  | nil =>
    obtain ⟨row, found, isRoot⟩ := lineage
    cases other with
    | nil => rfl
    | cons next rest =>
      obtain ⟨row', found', named, _⟩ := again
      rw [found] at found'
      rw [← Option.some.inj found', isRoot] at named
      cases named
  | cons parent above inductionHypothesis =>
    obtain ⟨row, found, named, upper⟩ := lineage
    cases other with
    | nil =>
      obtain ⟨row', found', isRoot⟩ := again
      rw [found] at found'
      rw [← Option.some.inj found', named] at isRoot
      cases isRoot
    | cons next rest =>
      obtain ⟨row', found', named', upper'⟩ := again
      rw [found] at found'
      rw [← Option.some.inj found', named] at named'
      obtain rfl := Option.some.inj named'
      rw [inductionHypothesis upper upper']

theorem lineage_of_mem
    {id other : Uuid}
    (lineage : Lineage nodes id above)
    (on : other ∈ above) :
    ∃ rest, Lineage nodes other rest ∧ rest.length < above.length := by
  induction above generalizing id with
  | nil => cases on
  | cons parent above inductionHypothesis =>
    obtain ⟨_, _, _, upper⟩ := lineage
    rcases mem_cons.mp on with rfl | further
    · exact ⟨above, upper, by simp⟩
    · obtain ⟨rest, itsLineage, shorter⟩ :=
        inductionHypothesis upper further
      exact ⟨rest, itsLineage, by simp only [length_cons]; omega⟩

theorem not_mem_lineage
    (lineage : Lineage nodes id above) :
    id ∉ above := by
  intro on
  obtain ⟨rest, again, shorter⟩ := lineage_of_mem lineage on
  rw [lineage_unique lineage again] at shorter
  exact absurd shorter (Nat.lt_irrefl _)

variable {db : Database}

/-- Every node that weighs has a lineage within the depth. -/
theorem Treed.lineage
    (tree : Treed db.nodes)
    (sound : Sound db)
    (found : db.nodes.get? id = some row)
    (weighs : row.weighs) :
    ∃ above, Lineage db.nodes id above ∧
      above.length + row.heightBound ≤ MAX_DEPTH := by
  -- Parents are higher, and nothing is higher than the depth.
  induction room : MAX_DEPTH - row.heightBound using Nat.strong_induction_on
    generalizing id row with
  | _ room inductionHypothesis =>
    cases named : row.parentId with
    | none =>
      refine ⟨[], ⟨row, found, named⟩, ?_⟩
      simpa using tree.capped found
    | some parentId =>
      obtain ⟨parent, there, folder, _⟩ := sound.nodeParent found named
      have lower := tree.climbs found named there weighs
      have capped := tree.capped there
      obtain ⟨above, lineage, within⟩ :=
        inductionHypothesis (MAX_DEPTH - parent.heightBound) (by omega)
          there (.inl folder) rfl
      refine ⟨parentId :: above, ⟨row, found, named, lineage⟩, ?_⟩
      simp only [length_cons]
      omega

theorem Treed.lineage_le
    (tree : Treed db.nodes)
    (sound : Sound db)
    (found : db.nodes.get? id = some row) :
    ∃ above, Lineage db.nodes id above ∧ above.length ≤ MAX_DEPTH + 1 := by
  cases named : row.parentId with
  | none => exact ⟨[], ⟨row, found, named⟩, Nat.zero_le _⟩
  | some parentId =>
    obtain ⟨parent, there, folder, _⟩ := sound.nodeParent found named
    obtain ⟨above, lineage, within⟩ :=
      tree.lineage sound there (.inl folder)
    refine ⟨parentId :: above, ⟨row, found, named, lineage⟩, ?_⟩
    simp only [length_cons]
    omega

/-- A folder's bound covers the nodes below it. -/
theorem Treed.height
    (tree : Treed db.nodes)
    (sound : Sound db)
    (found : db.nodes.get? id = some row)
    (weighs : row.weighs)
    (lineage : Lineage db.nodes id above)
    {steps folderId : Nat}
    {folder : Node}
    (at_ : above[steps]? = some folderId)
    (there : db.nodes.get? folderId = some folder) :
    steps + 1 + row.heightBound ≤ folder.heightBound := by
  induction above generalizing id row steps with
  | nil => cases at_
  | cons parentId above inductionHypothesis =>
    obtain ⟨self, selfFound, named, upper⟩ := lineage
    rw [found] at selfFound
    obtain rfl := Option.some.inj selfFound
    obtain ⟨parent, parentFound, isFolder, _⟩ := sound.nodeParent found named
    have lower := tree.climbs found named parentFound weighs
    cases steps with
    | zero =>
      rw [getElem?_cons_zero] at at_
      obtain rfl := Option.some.inj at_
      rw [there] at parentFound
      obtain rfl := Option.some.inj parentFound
      omega
    | succ steps =>
      rw [getElem?_cons_succ] at at_
      have higher := inductionHypothesis parentFound (.inl isFolder)
        upper at_
      omega

theorem climb_of_lineage
    (lineage : Lineage nodes id above) :
    ∃ self rows, Climb nodes id (self :: rows) ∧
      rows.length = above.length := by
  induction above generalizing id with
  | nil =>
    obtain ⟨row, found, isRoot⟩ := lineage
    refine ⟨(id, row), [], ⟨rfl, found, ?_⟩, rfl⟩
    rw [isRoot]
  | cons parentId above inductionHypothesis =>
    obtain ⟨row, found, named, upper⟩ := lineage
    obtain ⟨self, rows, climb, same⟩ := inductionHypothesis upper
    refine ⟨(id, row), self :: rows, ⟨rfl, found, ?_⟩, by simp [same]⟩
    rw [named]
    exact climb

theorem Treed.walks
    (tree : Treed db.nodes)
    (sound : Sound db)
    (found : db.nodes.get? id = some row) :
    ∃ walked, walk db id = some walked := by
  obtain ⟨above, lineage, within⟩ := tree.lineage_le sound found
  obtain ⟨self, rows, climb, same⟩ := climb_of_lineage lineage
  refine ⟨walkOf self rows, walk_eq_some.mpr ⟨self, rows, climb, ?_, rfl⟩⟩
  have fits : MAX_DEPTH + 2 ≤ WALK_CAP := by decide
  simp only [length_cons]
  omega

/-- Whether a node stands so many steps under one of these, none purged. -/
def Under (db : Database) (ids : List Uuid) : Nat → Uuid → Prop
  | 0, id => id ∈ ids
  | steps + 1, id =>
    ∃ row parentId, db.nodes.get? id = some row ∧ row.purgedAt = none ∧
      row.parentId = some parentId ∧ Under db ids steps parentId

theorem Under.children
    {ids : List Uuid}
    (under : Under db ids (steps + 1) id) :
    Under db (childrenOf db ids) steps id := by
  induction steps generalizing id with
  | zero =>
    obtain ⟨row, parentId, found, unpurged, named, member⟩ := under
    have member : parentId ∈ ids := member
    refine mem_map.mpr ⟨(id, row), ?_, rfl⟩
    refine mem_select.mpr ⟨found, ?_⟩
    simp [unpurged, named, member]
  | succ steps inductionHypothesis =>
    obtain ⟨row, parentId, found, unpurged, named, upper⟩ := under
    exact ⟨row, parentId, found, unpurged, named, inductionHypothesis upper⟩

theorem mem_levelsBelow
    {levels steps : Nat}
    {ids : List Uuid}
    (under : Under db ids (steps + 1) id)
    (within : steps < levels) :
    id ∈ levelsBelow db levels ids := by
  induction levels generalizing ids steps with
  | zero => cases within
  | succ levels inductionHypothesis =>
    rw [levelsBelow, mem_append]
    have further := under.children
    cases steps with
    | zero => exact .inl further
    | succ steps =>
      exact .inr (inductionHypothesis further
        (Nat.lt_of_succ_lt_succ within))

/-- A node lies no deeper under the root than its lineage is long. -/
theorem Under.le_length
    {rootId id : Uuid}
    (under : Under db [rootId] steps id)
    (lineage : Lineage db.nodes id above) :
    steps ≤ above.length := by
  induction steps generalizing id above with
  | zero => exact Nat.zero_le _
  | succ steps inductionHypothesis =>
    obtain ⟨row, parentId, found, _, named, upper⟩ := under
    cases above with
    | nil =>
      obtain ⟨self, selfFound, isRoot⟩ := lineage
      rw [found] at selfFound
      rw [← Option.some.inj selfFound, named] at isRoot
      cases isRoot
    | cons next rest =>
      obtain ⟨self, selfFound, itsParent, rest_⟩ := lineage
      rw [found] at selfFound
      rw [← Option.some.inj selfFound, named] at itsParent
      obtain rfl := Option.some.inj itsParent
      exact Nat.succ_le_succ (inductionHypothesis upper rest_)

theorem mem_subtree
    {rootId id : Uuid}
    (there : db.nodes.has rootId = true)
    (under : Under db [rootId] steps id)
    (lineage : Lineage db.nodes id above)
    (within : above.length ≤ MAX_DEPTH) :
    id ∈ subtree db rootId := by
  rw [subtree, if_pos there, mem_cons]
  cases steps with
  | zero => exact .inl (mem_singleton.mp under)
  | succ steps =>
    have far := under.le_length lineage
    exact .inr (mem_levelsBelow under (by omega))

/-- A lineage ends at a root of the node's own workspace. -/
theorem root_of_lineage
    (sound : Sound db)
    (found : db.nodes.get? id = some row)
    (lineage : Lineage db.nodes id above) :
    ∃ top, db.nodes.get? (above.getLast?.getD id) = some top ∧
      top.parentId = none ∧ top.workspaceId = row.workspaceId := by
  induction above generalizing id row with
  | nil =>
    obtain ⟨self, selfFound, isRoot⟩ := lineage
    rw [found] at selfFound
    obtain rfl := Option.some.inj selfFound
    exact ⟨row, found, isRoot, rfl⟩
  | cons parentId above inductionHypothesis =>
    obtain ⟨self, selfFound, named, upper⟩ := lineage
    rw [found] at selfFound
    obtain rfl := Option.some.inj selfFound
    obtain ⟨parent, there, _, inside, _⟩ := sound.nodeParent found named
    obtain ⟨top, topFound, isRoot, same⟩ := inductionHypothesis there upper
    rw [getLast?_cons, Option.getD_some]
    exact ⟨top, topFound, isRoot, same.trans inside⟩

end Reaching

section Runs

theorem treed_empty : Treed Database.empty.nodes where
  climbs := fun found => nomatch found
  capped := fun found => nomatch found
  flat := fun found => nomatch found
  oneRoot := fun found => nomatch found

theorem treed_run
    {ops : List Op}
    (shallow : Each Shallow .empty ops) :
    Sound (run .empty ops) ∧ Treed (run .empty ops).nodes := by
  refine keeps_of_each (fun db => Sound db ∧ Treed db.nodes) ?_ shallow
    ⟨sound_empty, treed_empty⟩
  rintro db op met ⟨sound, tree⟩
  have trail := step_trail sound op
  exact ⟨sound.trail trail, trail.treed sound met tree⟩

/--
In every run that shows nodes first within the depth, their ancestors raised:
every node stands under the one root of its workspace and not under itself; a
visible node stands within the depth, every folder above it bounded by at least
its distance; a walk reaches every node; and a subtree's queries reach every
node under its root that is visible, or hidden within the depth.
-/
theorem tree_of_run
    (ops : List Op)
    (shallow : Each Shallow .empty ops)
    {id : Uuid}
    {row : Node}
    (found : (run .empty ops).nodes.get? id = some row) :
    ∃ above, Lineage (run .empty ops).nodes id above ∧ id ∉ above ∧
      (∃ top, (run .empty ops).nodes.get? (above.getLast?.getD id) =
          some top ∧
        top.parentId = none ∧ top.workspaceId = row.workspaceId ∧
        ∀ other otherRow, (run .empty ops).nodes.get? other = some otherRow →
          otherRow.parentId = none →
          otherRow.workspaceId = row.workspaceId →
          other = above.getLast?.getD id) ∧
      (row.seen → above.length ≤ MAX_DEPTH ∧
        ∀ steps folderId folder, above[steps]? = some folderId →
          (run .empty ops).nodes.get? folderId = some folder →
            steps + 1 ≤ folder.heightBound) ∧
      (∃ walked, walk (run .empty ops) id = some walked) ∧
      ∀ rootId steps, (run .empty ops).nodes.has rootId = true →
        Under (run .empty ops) [rootId] steps id →
        row.seen ∨ above.length ≤ MAX_DEPTH →
          id ∈ subtree (run .empty ops) rootId := by
  obtain ⟨sound, tree⟩ := treed_run shallow
  obtain ⟨above, lineage, _⟩ := tree.lineage_le sound found
  have deep : row.seen → above.length ≤ MAX_DEPTH := by
    intro seen
    obtain ⟨again, itsLineage, within⟩ :=
      tree.lineage sound found (.inr seen)
    rw [lineage_unique lineage itsLineage]
    omega
  refine ⟨above, lineage, not_mem_lineage lineage, ?_, ?_,
    tree.walks sound found, ?_⟩
  · obtain ⟨top, topFound, isRoot, inside⟩ :=
      root_of_lineage sound found lineage
    refine ⟨top, topFound, isRoot, inside, ?_⟩
    intro other otherRow otherFound otherRoot same
    exact tree.oneRoot otherFound topFound otherRoot isRoot
      (same.trans inside.symm)
  · intro seen
    refine ⟨deep seen, fun steps folderId folder at_ there => ?_⟩
    have height := tree.height sound found (.inr seen) lineage at_ there
    omega
  · intro rootId steps there under shownOrNear
    refine mem_subtree there under lineage ?_
    rcases shownOrNear with seen | near
    · exact deep seen
    · exact near

/--
Once the second upload of a tangled file is published, its file is visible
right under a root whose bound is still 0.
-/
theorem tangled_low :
    ¬ ∀ ops id row above,
        (run .empty ops).nodes.get? id = some row → row.seen →
        Lineage (run .empty ops).nodes id above →
        ∀ steps folderId folder, above[steps]? = some folderId →
          (run .empty ops).nodes.get? folderId = some folder →
            steps + 1 ≤ folder.heightBound := by
  intro all
  have root : (run .empty (tangledCompleting ++
      [completingSecond])).nodes.get? 100 = some
        (newNodeRow 1 none .folder 1 1 (some 1)) := by
    decide
  have file : (run .empty (tangledCompleting ++
      [completingSecond])).nodes.get? 101 = some
        { newNodeRow 1 (some 100) .file 2 1 (some 4) with
          currentVersionId := some 202 } := by
    decide
  have low := all _ 101 _ [100] file ⟨by decide, rfl⟩
    ⟨_, file, rfl, _, root, rfl⟩ 0 100 _ rfl root
  revert low
  decide

/-- Whether a completion that publishes a new file shows it within the depth. -/
def showsWithin
    (db : Database)
    (workspaceId uploadId : Uuid)
    (storedSize : Option Nat)
    (move : Option MoveRecord)
    (writer : Option Uuid)
    (now : Nat) : Bool :=
  match lockForCompletion db workspaceId writer move now with
  | .error _ => true
  | .ok (_, sourceSeq, locked) =>
    (getUpload locked workspaceId uploadId).all fun row =>
      match endingOf locked workspaceId row storedSize move sourceSeq now with
      | .publish chain _ _ => row.newNode && chain.depth ≤ MAX_DEPTH
      | _ => true

theorem shallow_of_showsWithin
    {db : Database}
    {workspaceId uploadId : Uuid}
    {storedSize : Option Nat}
    {move : Option MoveRecord}
    {writer : Option Uuid}
    {now : Nat}
    (shows : showsWithin db workspaceId uploadId storedSize move writer now =
      true) :
    Shallow db
      (.finishCompleting workspaceId uploadId storedSize move writer now) := by
  rintro row chain size displaced ⟨_, _, locked, taken, there, _, ending⟩
  simp only [showsWithin, taken, there, Option.all_some, ending,
    Bool.and_eq_true, decide_eq_true_eq] at shows
  rw [if_pos shows.1]
  exact shows.2

/-- A file published is within the depth, its root bounded above it. -/
theorem tree_of_run_uploading :
    ∃ above, Lineage (run .empty (uploading ++ [completingFirst])).nodes 101
        above ∧
      above.length ≤ MAX_DEPTH ∧
        ∀ steps folderId folder, above[steps]? = some folderId →
          (run .empty (uploading ++ [completingFirst])).nodes.get? folderId =
            some folder →
          steps + 1 ≤ folder.heightBound := by
  have found : (run .empty (uploading ++ [completingFirst])).nodes.get? 101 =
      some
        { newNodeRow 1 (some 100) .file 2 1 (some 3) with
          currentVersionId := some 201 } := by
    decide
  have shallow : Each Shallow .empty (uploading ++ [completingFirst]) :=
    ⟨trivial, trivial, trivial, trivial, trivial,
      shallow_of_showsWithin (by decide), trivial⟩
  obtain ⟨above, lineage, _, _, shown, _⟩ :=
    tree_of_run (uploading ++ [completingFirst]) shallow found
  exact ⟨above, lineage, shown ⟨by decide, rfl⟩⟩

end Runs

end Drive

end HushOS
