import HushOS.Toolkit.OrderedMap
import HushOS.Toolkit.Visits
import Mathlib.Logic.Relation
import Mathlib.Order.Basic

namespace HushOS

open Toolkit List OrderedMap

namespace Catalogue

/-!
# Recent, a folder once

What changed lately is taken newest first.  A node with a kept folder above it
is folded into that folder, and a folder kept later takes in what was kept below
it, so that the rows stand for everything taken and none stands below another.
-/

/-- The kinds of a node. -/
inductive NodeKind where
  | folder
  | file
  deriving DecidableEq, Repr

/-- A node of the catalogue, as far as Recent looks at it. -/
structure DriveNode (Id Name Stamp Rest : Type) where
  id : Id
  parentId : Option Id
  kind : NodeKind
  name : Name
  updatedAt : Stamp
  /-- What else it carries. -/
  rest : Rest

/-- A node with the newest change it stands for, and that change as written. -/
structure Kept (Id Name Stamp Rest : Type) where
  node : DriveNode Id Name Stamp Rest
  at_ : Int
  iso : Stamp

/-- A row of Recent: the node, and when Recent says it changed. -/
structure RecentNode (Id Name Stamp Rest : Type) where
  node : DriveNode Id Name Stamp Rest
  recentAt : Stamp

/-- The parents asked for beside the nodes: of finitely many ids. -/
structure Parents (Id : Type) where
  of : Id → Option Id
  known : List Id
  outside : ∀ id, id ∉ known → of id = none

variable {Id Name Stamp Rest Key : Type} [LinearOrder Id] [LinearOrder Key]

/-- The nodes by id. -/
def heldOf (nodes : List (DriveNode Id Name Stamp Rest)) :
    OrderedMap Id (DriveNode Id Name Stamp Rest) :=
  nodes.foldl (fun held node => held.set node.id node) .empty

section Walking

variable (parents : Parents Id)
  (held : OrderedMap Id (DriveNode Id Name Stamp Rest))

/-- The parent of an id: the node's own, or the one asked for. -/
def parentOf (id : Id) : Option Id :=
  ((held.get? id).bind DriveNode.parentId).or (parents.of id)

/-- The ids that may have a parent. -/
def parented : List Id :=
  held.keys ++ parents.known

theorem parentOf_outside
    {id : Id}
    (outside : id ∉ parented parents held) :
    parentOf parents held id = none := by
  rw [parented, mem_append, not_or] at outside
  rw [parentOf, get?_eq_none.mpr outside.1,
    parents.outside id outside.2]
  rfl

/-- The first row kept on the way up from an id, that one included. -/
def keptFrom
    (kept : OrderedMap Id (Kept Id Name Stamp Rest))
    (walked : List Id) :
    Option Id → Option (Kept Id Name Stamp Rest)
  | none => none
  | some current =>
    if current ∈ walked then
      none
    else
      match kept.get? current with
      | some row => some row
      | none =>
        keptFrom kept (walked ++ [current]) (parentOf parents held current)
  termination_by current =>
    (Visits.unvisited (parented parents held) walked, current.isSome.toNat)
  decreasing_by
    next new =>
      by_cases inside : current ∈ parented parents held
      · exact .left _ _ (Visits.unvisited_lt inside new)
      · rw [parentOf_outside parents held inside]
        rcases (Visits.unvisited_le (parented parents held) walked current).lt_or_eq
          with less | same
        · exact .left _ _ less
        · rw [same]
          exact .right _ Nat.zero_lt_one

/-- The kept row above an id, if any. -/
def keptAbove
    (kept : OrderedMap Id (Kept Id Name Stamp Rest))
    (id : Id) :
    Option (Kept Id Name Stamp Rest) :=
  keptFrom parents held kept [] (parentOf parents held id)

/-- A row takes in a change, if it is newer than what the row stands for. -/
def Kept.take
    (row : Kept Id Name Stamp Rest)
    (at_ : Int)
    (iso : Stamp) :
    Kept Id Name Stamp Rest :=
  if row.at_ < at_ then { row with at_, iso } else row

/-- A kept row below a new folder goes into the folder's row. -/
def absorb
    (folder : Id)
    (kept : OrderedMap Id (Kept Id Name Stamp Rest))
    (entry : Id × Kept Id Name Stamp Rest) :
    OrderedMap Id (Kept Id Name Stamp Rest) :=
  if entry.1 = folder then
    kept
  else
    match keptAbove parents held kept entry.1 with
    | none => kept
    | some row =>
      if row.node.id = folder then
        (kept.erase entry.1).set folder (row.take entry.2.at_ entry.2.iso)
      else
        kept

/-- What taking a node leaves kept. -/
def takeNode
    (kept : OrderedMap Id (Kept Id Name Stamp Rest))
    (given : Kept Id Name Stamp Rest) :
    OrderedMap Id (Kept Id Name Stamp Rest) :=
  match keptAbove parents held kept given.node.id with
  | some above => kept.set above.node.id (above.take given.at_ given.node.updatedAt)
  | none =>
    let kept := kept.set given.node.id given
    match given.node.kind with
    | .folder => kept.entries.foldl (absorb parents held given.node.id) kept
    | .file => kept

/-- The walk until the limit of rows is kept: the rows, and what it took. -/
def walk
    (limit : Nat)
    (kept : OrderedMap Id (Kept Id Name Stamp Rest)) :
    List (Kept Id Name Stamp Rest) →
      OrderedMap Id (Kept Id Name Stamp Rest) × List (Kept Id Name Stamp Rest)
  | [] => (kept, [])
  | given :: rest =>
    if limit ≤ kept.size then
      (kept, [])
    else
      Prod.map id (given :: ·)
        (walk limit (takeNode parents held kept given) rest)

end Walking

section Sorting

variable (collation : Name → Key)

/-- Newest first; what changed in the same moment by name, then id. -/
def newer (first second : Kept Id Name Stamp Rest) : Bool :=
  if first.at_ ≠ second.at_ then
    second.at_ < first.at_
  else if collation first.node.name ≠ collation second.node.name then
    collation first.node.name < collation second.node.name
  else
    first.node.id ≤ second.node.id

/-- The nodes given, newest first. -/
def orderOf
    (timeOf : Stamp → Int)
    (held : OrderedMap Id (DriveNode Id Name Stamp Rest)) :
    List (Kept Id Name Stamp Rest) :=
  (held.values.map fun node =>
    { node, at_ := timeOf node.updatedAt, iso := node.updatedAt }).mergeSort
      (newer collation)

/-- The walk over the nodes given, newest first. -/
def recentWalk
    (timeOf : Stamp → Int)
    (parents : Parents Id)
    (limit : Nat)
    (nodes : List (DriveNode Id Name Stamp Rest)) :
    OrderedMap Id (Kept Id Name Stamp Rest) × List (Kept Id Name Stamp Rest) :=
  walk parents (heldOf nodes) limit .empty (orderOf collation timeOf (heldOf nodes))

/-- The rows of Recent. -/
def collapseRecent
    (timeOf : Stamp → Int)
    (parents : Parents Id)
    (limit : Nat)
    (nodes : List (DriveNode Id Name Stamp Rest)) :
    List (RecentNode Id Name Stamp Rest) :=
  ((recentWalk collation timeOf parents limit nodes).1.values.mergeSort
    (newer collation)).map fun row =>
      { node := row.node, recentAt := row.iso }

end Sorting

section Above

variable {parents : Parents Id}
  {held : OrderedMap Id (DriveNode Id Name Stamp Rest)}
  {kept : OrderedMap Id (Kept Id Name Stamp Rest)}

/-- A step from an id to its parent. -/
def Up
    (parents : Parents Id)
    (held : OrderedMap Id (DriveNode Id Name Stamp Rest))
    (id parent : Id) :
    Prop :=
  parentOf parents held id = some parent

/-- One id lies below another, at any depth. -/
def Below
    (parents : Parents Id)
    (held : OrderedMap Id (DriveNode Id Name Stamp Rest))
    (id ancestor : Id) :
    Prop :=
  Relation.TransGen (Up parents held) id ancestor

/-- One id is another or lies below it. -/
def Within
    (parents : Parents Id)
    (held : OrderedMap Id (DriveNode Id Name Stamp Rest))
    (id ancestor : Id) :
    Prop :=
  Relation.ReflTransGen (Up parents held) id ancestor

/-- No parents come in a circle. -/
def Straight
    (parents : Parents Id)
    (held : OrderedMap Id (DriveNode Id Name Stamp Rest)) :
    Prop :=
  ∀ id, ¬ Below parents held id id

/-- Parents lead only through folders. -/
def ThroughFolders
    (parents : Parents Id)
    (held : OrderedMap Id (DriveNode Id Name Stamp Rest)) :
    Prop :=
  ∀ {id parent node}, Up parents held id parent →
    held.get? parent = some node → node.kind = .folder

theorem within_iff
    {id ancestor : Id} :
    Within parents held id ancestor ↔
      id = ancestor ∨ Below parents held id ancestor := by
  rw [Within, Relation.reflTransGen_iff_eq_or_transGen, eq_comm]
  rfl

theorem Within.total
    {id first second : Id}
    (inFirst : Within parents held id first)
    (inSecond : Within parents held id second) :
    first = second ∨ Below parents held first second ∨
      Below parents held second first := by
  have unique : Relator.RightUnique (Up parents held) := by
    intro child first second isFirst isSecond
    exact Option.some.inj (isFirst.symm.trans isSecond)
  rcases Relation.ReflTransGen.total_of_right_unique unique inFirst inSecond with
    up | up
  · rcases within_iff.mp up with same | below
    · exact .inl same
    · exact .inr (.inl below)
  · rcases within_iff.mp up with same | below
    · exact .inl same.symm
    · exact .inr (.inr below)

/-- The walk up finds the nearest kept row at or above, if any. -/
theorem keptFrom_spec
    (straight : Straight parents held)
    (walked : List Id)
    (current : Option Id)
    (come : ∀ id ∈ current, ∀ earlier ∈ walked, Below parents held earlier id) :
    (∀ row, keptFrom parents held kept walked current = some row →
      ∃ id ∈ current, ∃ key, Within parents held id key ∧
        kept.get? key = some row) ∧
      (keptFrom parents held kept walked current = none →
        ∀ id ∈ current, ∀ key, Within parents held id key →
          kept.get? key = none) := by
  fun_induction keptFrom parents held kept walked current with
  | case1 walked => simp
  | case2 walked current old =>
    exact absurd (come current rfl current old) (straight current)
  | case3 walked current new row found =>
    refine ⟨fun other isRow => ?_, fun isNone => by cases isNone⟩
    cases isRow
    exact ⟨current, rfl, current, .refl, found⟩
  | case4 walked current new missing inductionHypothesis =>
    have above : ∀ id ∈ parentOf parents held current,
        ∀ earlier ∈ walked ++ [current], Below parents held earlier id := by
      intro id isParent earlier member
      have step : Up parents held current id := isParent
      rcases mem_append.mp member with old | own
      · exact (come current rfl earlier old).tail step
      · rw [mem_singleton.mp own]
        exact .single step
    obtain ⟨finds, misses⟩ := inductionHypothesis above
    refine ⟨fun row isRow => ?_, fun isNone id isCurrent key within => ?_⟩
    · obtain ⟨parent, isParent, key, within, found⟩ := finds row isRow
      exact ⟨current, rfl, key, .head isParent within, found⟩
    · cases isCurrent
      rcases Relation.ReflTransGen.cases_head within with rfl | ⟨parent, step, within⟩
      · exact missing
      · exact misses isNone parent step key within

theorem keptAbove_eq_some
    (straight : Straight parents held)
    {id : Id}
    {row : Kept Id Name Stamp Rest}
    (found : keptAbove parents held kept id = some row) :
    ∃ key, Below parents held id key ∧ kept.get? key = some row := by
  obtain ⟨parent, step, key, within, found⟩ :=
    (keptFrom_spec straight [] _ (by simp)).1 row found
  exact ⟨key, Relation.TransGen.head' step within, found⟩

theorem keptAbove_eq_none
    (straight : Straight parents held)
    {id key : Id}
    (missing : keptAbove parents held kept id = none)
    (below : Below parents held id key) :
    kept.get? key = none := by
  obtain ⟨parent, step, within⟩ := Relation.TransGen.head'_iff.mp below
  exact (keptFrom_spec straight [] _ (by simp)).2 missing parent step key within

end Above

section Standing

variable {parents : Parents Id}
  {held : OrderedMap Id (DriveNode Id Name Stamp Rest)}
  {kept : OrderedMap Id (Kept Id Name Stamp Rest)}
  {taken rest : List (Kept Id Name Stamp Rest)}
  {given : Kept Id Name Stamp Rest}

/-- The rows kept stand for the nodes taken, each for what lies within it. -/
structure Stands
    (parents : Parents Id)
    (held : OrderedMap Id (DriveNode Id Name Stamp Rest))
    (taken : List (Kept Id Name Stamp Rest))
    (kept : OrderedMap Id (Kept Id Name Stamp Rest)) :
    Prop where
  keyed : ∀ {key row}, kept.get? key = some row → row.node.id = key
  known : ∀ {key row}, kept.get? key = some row →
    ∃ given ∈ taken, given.node = row.node
  apart : ∀ {key other}, key ∈ kept.keys → other ∈ kept.keys →
    ¬ Below parents held key other
  covers : ∀ given ∈ taken, ∃ key ∈ kept.keys, Within parents held given.node.id key
  newest : ∀ {key row}, kept.get? key = some row →
    ∃ given ∈ taken, Within parents held given.node.id key ∧
      row.at_ = given.at_ ∧ row.iso = given.node.updatedAt
  latest : ∀ {key row}, kept.get? key = some row →
    ∀ given ∈ taken, Within parents held given.node.id key → given.at_ ≤ row.at_

omit [LinearOrder Id] in
@[simp] theorem Kept.take_node (row : Kept Id Name Stamp Rest) (at_ : Int) (iso : Stamp) :
    (row.take at_ iso).node = row.node := by
  rw [Kept.take]
  split
  · rfl
  · rfl

omit [LinearOrder Id] in
theorem Kept.le_take (row : Kept Id Name Stamp Rest) (at_ : Int) (iso : Stamp) :
    row.at_ ≤ (row.take at_ iso).at_ ∧ at_ ≤ (row.take at_ iso).at_ := by
  rw [Kept.take]
  split
  · next newer => exact ⟨newer.le, le_rfl⟩
  · next older => exact ⟨le_rfl, not_lt.mp older⟩

omit [LinearOrder Id] in
theorem Kept.take_cases (row : Kept Id Name Stamp Rest) (at_ : Int) (iso : Stamp) :
    ((row.take at_ iso).at_ = row.at_ ∧ (row.take at_ iso).iso = row.iso) ∨
      ((row.take at_ iso).at_ = at_ ∧ (row.take at_ iso).iso = iso) := by
  rw [Kept.take]
  split
  · exact .inr ⟨rfl, rfl⟩
  · exact .inl ⟨rfl, rfl⟩

/-- A row folded into the one above it leaves the kept rows standing. -/
theorem Stands.fold
    (stands : Stands parents held taken kept)
    {key : Id}
    {above : Kept Id Name Stamp Rest}
    (found : kept.get? key = some above)
    (below : Below parents held given.node.id key) :
    Stands parents held (taken ++ [given])
      (kept.set above.node.id (above.take given.at_ given.node.updatedAt)) := by
  have isKey := stands.keyed found
  have listed : key ∈ kept.keys := OrderedMap.mem_keys.mpr ⟨above, found⟩
  rw [isKey]
  have keys : (kept.set key (above.take given.at_ given.node.updatedAt)).keys =
      kept.keys := by
    rw [keys_set, if_pos listed]
  have bounds := above.le_take given.at_ given.node.updatedAt
  exact {
    keyed := by
      intro other row isRow
      rw [get?_set] at isRow
      split at isRow
      · next same =>
          cases isRow
          rw [Kept.take_node, isKey, same]
      · exact stands.keyed isRow
    known := by
      intro other row isRow
      have earlier : ∃ given ∈ taken, given.node = row.node := by
        rw [get?_set] at isRow
        split at isRow
        · cases isRow
          rw [Kept.take_node]
          exact stands.known found
        · exact stands.known isRow
      obtain ⟨node, member, same⟩ := earlier
      exact ⟨node, mem_append_left _ member, same⟩
    apart := by
      rw [keys]
      exact stands.apart
    covers := by
      rw [keys]
      intro other member
      rcases mem_append.mp member with earlier | own
      · exact stands.covers other earlier
      · rw [mem_singleton.mp own]
        exact ⟨key, listed, within_iff.mpr (.inr below)⟩
    newest := by
      intro other row isRow
      rw [get?_set] at isRow
      split at isRow
      · next same =>
          cases isRow
          rcases above.take_cases given.at_ given.node.updatedAt with
            ⟨time, written⟩ | ⟨time, written⟩
          · obtain ⟨node, member, within, isTime, isWritten⟩ := stands.newest found
            exact ⟨node, mem_append_left _ member, same ▸ within,
              time.trans isTime, written.trans isWritten⟩
          · exact ⟨given, by simp, same ▸ within_iff.mpr (.inr below), time, written⟩
      · obtain ⟨node, member, facts⟩ := stands.newest isRow
        exact ⟨node, mem_append_left _ member, facts⟩
    latest := by
      intro other row isRow node member within
      rw [get?_set] at isRow
      split at isRow
      · next same =>
          cases isRow
          rcases mem_append.mp member with earlier | own
          · exact (stands.latest found node earlier (same ▸ within)).trans bounds.1
          · rw [mem_singleton.mp own]
            exact bounds.2
      · next other_ =>
          rcases mem_append.mp member with earlier | own
          · exact stands.latest isRow node earlier within
          · -- The node lies within one kept row alone.
            rw [mem_singleton.mp own] at within
            have alsoListed : other ∈ kept.keys := OrderedMap.mem_keys.mpr ⟨row, isRow⟩
            rcases within.total (within_iff.mpr (.inr below)) with same | up | up
            · exact absurd same other_
            · exact absurd up (stands.apart alsoListed listed)
            · exact absurd up (stands.apart listed alsoListed)
  }

/--
Where a new row stands while the kept rows below it, those of some entries yet to
come, go into it one by one.
-/
structure Absorbing
    (parents : Parents Id)
    (held : OrderedMap Id (DriveNode Id Name Stamp Rest))
    (taken : List (Kept Id Name Stamp Rest))
    (folder : Id)
    (most : Nat)
    (entries : List (Id × Kept Id Name Stamp Rest))
    (kept : OrderedMap Id (Kept Id Name Stamp Rest)) :
    Prop where
  size : kept.size ≤ most
  distinct : (entries.map Prod.fst).Nodup
  pending : ∀ entry ∈ entries, entry.1 ≠ folder → kept.get? entry.1 = some entry.2
  own : folder ∈ kept.keys
  keyed : ∀ {key row}, kept.get? key = some row → row.node.id = key
  known : ∀ {key row}, kept.get? key = some row →
    ∃ given ∈ taken, given.node = row.node
  apart : ∀ {key other}, key ∈ kept.keys → other ∈ kept.keys →
    Below parents held key other → other = folder ∧ key ∈ entries.map Prod.fst
  covers : ∀ given ∈ taken, ∃ key ∈ kept.keys, Within parents held given.node.id key
  newest : ∀ {key row}, kept.get? key = some row →
    ∃ given ∈ taken, Within parents held given.node.id key ∧
      row.at_ = given.at_ ∧ row.iso = given.node.updatedAt
  latest : ∀ {key row}, kept.get? key = some row →
    ∀ given ∈ taken, Within parents held given.node.id key →
      given.at_ ≤ row.at_ ∨
        (key = folder ∧ ∃ entry ∈ entries, Below parents held entry.1 folder ∧
          Within parents held given.node.id entry.1)

theorem Absorbing.stands
    {folder : Id}
    {most : Nat}
    (absorbing : Absorbing parents held taken folder most [] kept) :
    Stands parents held taken kept where
  keyed := absorbing.keyed
  known := absorbing.known
  apart listed also below := by
    have found := (absorbing.apart listed also below).2
    cases found
  covers := absorbing.covers
  newest := absorbing.newest
  latest isRow node member within := by
    rcases absorbing.latest isRow node member within with older | ⟨_, entry, none_, _⟩
    · exact older
    · cases none_

section Entries

variable {folder : Id} {most : Nat}
  {entry : Id × Kept Id Name Stamp Rest}
  {entries : List (Id × Kept Id Name Stamp Rest)}

/-- An entry outside the folder is passed over. -/
theorem Absorbing.skip
    (absorbing : Absorbing parents held taken folder most (entry :: entries) kept)
    (outside : ¬ Below parents held entry.1 folder) :
    Absorbing parents held taken folder most entries kept := by
  have distinct := absorbing.distinct
  rw [map_cons, nodup_cons] at distinct
  exact {
    size := absorbing.size
    distinct := distinct.2
    pending := fun other member apart =>
      absorbing.pending other (mem_cons_of_mem _ member) apart
    own := absorbing.own
    keyed := absorbing.keyed
    known := absorbing.known
    apart := by
      intro key other listed also below
      obtain ⟨rfl, member⟩ := absorbing.apart listed also below
      refine ⟨rfl, ?_⟩
      rcases mem_cons.mp member with rfl | later
      · exact absurd below outside
      · exact later
    covers := absorbing.covers
    newest := absorbing.newest
    latest := by
      intro key row isRow node member within
      rcases absorbing.latest isRow node member within with
        older | ⟨isFolder, other, inEntries, below, inside⟩
      · exact .inl older
      · rcases mem_cons.mp inEntries with rfl | later
        · exact absurd below outside
        · exact .inr ⟨isFolder, other, later, below, inside⟩
  }

/-- An entry below the folder is taken into the folder's row. -/
theorem Absorbing.into
    (straight : Straight parents held)
    (absorbing : Absorbing parents held taken folder most (entry :: entries) kept)
    {row : Kept Id Name Stamp Rest}
    (found : kept.get? folder = some row)
    (below : Below parents held entry.1 folder) :
    Absorbing parents held taken folder most entries
      ((kept.erase entry.1).set folder (row.take entry.2.at_ entry.2.iso)) := by
  have distinct := absorbing.distinct
  rw [map_cons, nodup_cons] at distinct
  have differs : entry.1 ≠ folder := by
    intro same
    rw [same] at below
    exact straight folder below
  have held_ := absorbing.pending entry (mem_cons_self ..) differs
  have bounds := row.le_take entry.2.at_ entry.2.iso
  -- What the map answers now.
  have answers : ∀ key,
      ((kept.erase entry.1).set folder (row.take entry.2.at_ entry.2.iso)).get? key =
        if key = folder then some (row.take entry.2.at_ entry.2.iso)
        else if key = entry.1 then none else kept.get? key := by
    intro key
    rw [get?_set, get?_erase]
  have stays : ∀ {key other},
      ((kept.erase entry.1).set folder
        (row.take entry.2.at_ entry.2.iso)).get? key = some other →
      key ≠ folder → key ≠ entry.1 ∧ kept.get? key = some other := by
    intro key other isRow notFolder
    rw [answers, if_neg notFolder] at isRow
    split at isRow
    · cases isRow
    · next notEntry => exact ⟨notEntry, isRow⟩
  have listed : ∀ {key},
      key ∈ ((kept.erase entry.1).set folder
        (row.take entry.2.at_ entry.2.iso)).keys ↔
      key = folder ∨ key ∈ kept.keys ∧ key ≠ entry.1 := by
    intro key
    rw [mem_keys_set, keys_erase, mem_filter,
      decide_eq_true_eq]
  have isFolder : ∀ {other},
      ((kept.erase entry.1).set folder
        (row.take entry.2.at_ entry.2.iso)).get? folder = some other →
      row.take entry.2.at_ entry.2.iso = other := by
    intro other isRow
    rw [answers, if_pos rfl] at isRow
    exact Option.some.inj isRow
  exact {
    size := by
      have inErased : folder ∈ (kept.erase entry.1).keys := by
        rw [keys_erase]
        exact mem_filter.mpr ⟨absorbing.own, decide_eq_true differs.symm⟩
      rw [size_set, if_pos inErased]
      exact (length_filter_le _ _).trans absorbing.size
    distinct := distinct.2
    pending := by
      intro other member apart
      have notEntry : other.1 ≠ entry.1 := by
        intro same
        exact distinct.1 (same ▸ mem_map_of_mem member)
      rw [answers, if_neg apart, if_neg notEntry]
      exact absorbing.pending other (mem_cons_of_mem _ member) apart
    own := listed.mpr (.inl rfl)
    keyed := by
      intro key other isRow
      by_cases same : key = folder
      · subst same
        rw [← isFolder isRow, Kept.take_node]
        exact absorbing.keyed found
      · exact absorbing.keyed (stays isRow same).2
    known := by
      intro key other isRow
      by_cases same : key = folder
      · subst same
        rw [← isFolder isRow, Kept.take_node]
        exact absorbing.known found
      · exact absorbing.known (stays isRow same).2
    apart := by
      intro key other inKeys alsoIn below_
      have inKept : ∀ {key}, key ∈ ((kept.erase entry.1).set folder
          (row.take entry.2.at_ entry.2.iso)).keys → key ∈ kept.keys := by
        intro key member
        rcases listed.mp member with rfl | old
        · exact absorbing.own
        · exact old.1
      obtain ⟨rfl, member⟩ := absorbing.apart (inKept inKeys) (inKept alsoIn) below_
      refine ⟨rfl, ?_⟩
      rcases mem_cons.mp member with rfl | later
      · rcases listed.mp inKeys with same | old
        · exact absurd same differs
        · exact absurd rfl old.2
      · exact later
    covers := by
      intro given member
      obtain ⟨key, inKeys, within⟩ := absorbing.covers given member
      by_cases same : key = entry.1
      · subst same
        exact ⟨folder, listed.mpr (.inl rfl), within.trans below.to_reflTransGen⟩
      · exact ⟨key, listed.mpr (.inr ⟨inKeys, same⟩), within⟩
    newest := by
      intro key other isRow
      by_cases same : key = folder
      · subst same
        rw [← isFolder isRow]
        rcases row.take_cases entry.2.at_ entry.2.iso with
          ⟨time, written⟩ | ⟨time, written⟩
        · obtain ⟨given, member, within, isTime, isWritten⟩ := absorbing.newest found
          exact ⟨given, member, within, time.trans isTime, written.trans isWritten⟩
        · obtain ⟨given, member, within, isTime, isWritten⟩ := absorbing.newest held_
          exact ⟨given, member, within.trans below.to_reflTransGen,
            time.trans isTime, written.trans isWritten⟩
      · exact absorbing.newest (stays isRow same).2
    latest := by
      intro key other isRow given member within
      by_cases same : key = folder
      · subst same
        rw [← isFolder isRow]
        rcases absorbing.latest found given member within with
          older | ⟨_, pending, inEntries, under, inside⟩
        · exact .inl (older.trans bounds.1)
        · rcases mem_cons.mp inEntries with rfl | later
          · rcases absorbing.latest held_ given member inside with older | ⟨own, _⟩
            · exact .inl (older.trans bounds.2)
            · exact absurd own differs
          · exact .inr ⟨rfl, pending, later, under, inside⟩
      · rcases absorbing.latest (stays isRow same).2 given member within with
          older | ⟨own, _⟩
        · exact .inl older
        · exact absurd own same
  }

/-- Each entry is absorbed or passed over, and the account stands. -/
theorem Absorbing.absorb
    (straight : Straight parents held)
    (absorbing : Absorbing parents held taken folder most (entry :: entries) kept) :
    Absorbing parents held taken folder most entries
      (absorb parents held folder kept entry) := by
  rw [Catalogue.absorb]
  split
  · next own => exact absorbing.skip (own ▸ straight entry.1)
  · next differs =>
      have held_ := absorbing.pending entry (mem_cons_self ..) differs
      split
      · next missing =>
          refine absorbing.skip fun below => ?_
          obtain ⟨row, found⟩ := OrderedMap.mem_keys.mp absorbing.own
          rw [keptAbove_eq_none straight missing below] at found
          cases found
      · next row above =>
          obtain ⟨key, below, found⟩ := keptAbove_eq_some straight above
          obtain ⟨rfl, _⟩ := absorbing.apart
            (OrderedMap.mem_keys.mpr ⟨_, held_⟩)
            (OrderedMap.mem_keys.mpr ⟨_, found⟩) below
          rw [if_pos (absorbing.keyed found)]
          exact absorbing.into straight found below

theorem Absorbing.foldl
    (straight : Straight parents held)
    (absorbing : Absorbing parents held taken folder most entries kept) :
    Absorbing parents held taken folder most []
      (entries.foldl (Catalogue.absorb parents held folder) kept) := by
  induction entries generalizing kept with
  | nil => exact absorbing
  | cons entry entries inductionHypothesis =>
    exact inductionHypothesis (absorbing.absorb straight)

end Entries

/-- A folder put in as its own row starts absorbing those below it. -/
theorem Stands.begin
    (stands : Stands parents held taken kept)
    (new : given.node.id ∉ kept.keys)
    (missing : ∀ key, Below parents held given.node.id key → kept.get? key = none)
    (written : given.iso = given.node.updatedAt) :
    Absorbing parents held (taken ++ [given]) given.node.id (kept.size + 1)
      (kept.set given.node.id given).entries (kept.set given.node.id given) := by
  have answers : ∀ key, (kept.set given.node.id given).get? key =
      if key = given.node.id then some given else kept.get? key :=
    fun key => get?_set kept given.node.id key given
  have listed : ∀ {key}, key ∈ (kept.set given.node.id given).keys ↔
      key = given.node.id ∨ key ∈ kept.keys :=
    mem_keys_set
  exact {
    size := by rw [size_set, if_neg new]
    distinct := (kept.set given.node.id given).nodup
    pending := fun entry member _ => get?_eq_some.mpr member
    own := listed.mpr (.inl rfl)
    keyed := by
      intro key row isRow
      rw [answers] at isRow
      split at isRow
      · next same =>
          cases isRow
          exact same.symm
      · exact stands.keyed isRow
    known := by
      intro key row isRow
      rw [answers] at isRow
      split at isRow
      · cases isRow
        exact ⟨given, by simp, rfl⟩
      · obtain ⟨node, member, same⟩ := stands.known isRow
        exact ⟨node, mem_append_left _ member, same⟩
    apart := by
      intro key other inKeys alsoIn below
      refine ⟨?_, inKeys⟩
      rcases listed.mp alsoIn with same | old
      · exact same
      · rcases listed.mp inKeys with rfl | also
        · exact absurd old (get?_eq_none.mp (missing other below))
        · exact absurd below (stands.apart also old)
    covers := by
      intro node member
      rcases mem_append.mp member with earlier | own
      · obtain ⟨key, inKeys, within⟩ := stands.covers node earlier
        exact ⟨key, listed.mpr (.inr inKeys), within⟩
      · rw [mem_singleton.mp own]
        exact ⟨given.node.id, listed.mpr (.inl rfl), .refl⟩
    newest := by
      intro key row isRow
      rw [answers] at isRow
      split at isRow
      · next same =>
          cases isRow
          exact ⟨given, by simp, same ▸ .refl, rfl, written⟩
      · obtain ⟨node, member, facts⟩ := stands.newest isRow
        exact ⟨node, mem_append_left _ member, facts⟩
    latest := by
      intro key row isRow node member within
      rw [answers] at isRow
      split at isRow
      · next same =>
          cases isRow
          rcases mem_append.mp member with earlier | own
          · -- What an earlier node lies within is the folder, or a row below it.
            obtain ⟨other, inKeys, inside⟩ := stands.covers node earlier
            obtain ⟨held_, isRow⟩ := OrderedMap.mem_keys.mp inKeys
            rcases within.total inside with isOther | up | up
            · exact absurd (same ▸ isOther ▸ inKeys) new
            · rw [same] at up
              rw [missing other up] at isRow
              cases isRow
            · refine .inr ⟨same, (other, held_), ?_, same ▸ up, inside⟩
              have differs : other ≠ given.node.id := fun isSame => new (isSame ▸ inKeys)
              refine get?_eq_some.mp ?_
              rw [answers, if_neg differs]
              exact isRow
          · rw [mem_singleton.mp own]
            exact .inl le_rfl
      · next other =>
          rcases mem_append.mp member with earlier | own
          · exact .inl (stands.latest isRow node earlier within)
          · rw [mem_singleton.mp own] at within
            rcases within_iff.mp within with same | below
            · exact absurd same.symm other
            · rw [missing key below] at isRow
              cases isRow
  }

theorem Absorbing.stands_of_none
    {folder : Id}
    {most : Nat}
    {entries : List (Id × Kept Id Name Stamp Rest)}
    (absorbing : Absorbing parents held taken folder most entries kept)
    (none_ : ∀ id, ¬ Below parents held id folder) :
    Stands parents held taken kept where
  keyed := absorbing.keyed
  known := absorbing.known
  apart listed also below := by
    obtain ⟨rfl, _⟩ := absorbing.apart listed also below
    exact none_ _ below
  covers := absorbing.covers
  newest := absorbing.newest
  latest isRow node member within := by
    rcases absorbing.latest isRow node member within with
      older | ⟨_, entry, _, below, _⟩
    · exact older
    · exact absurd below (none_ entry.1)

/-- Taking one more node leaves the kept rows standing. -/
theorem Stands.takeNode
    (straight : Straight parents held)
    (folders : ThroughFolders parents held)
    (stands : Stands parents held taken kept)
    (isHeld : held.get? given.node.id = some given.node)
    (new : given.node.id ∉ kept.keys)
    (written : given.iso = given.node.updatedAt) :
    Stands parents held (taken ++ [given]) (takeNode parents held kept given) ∧
      (takeNode parents held kept given).size ≤ kept.size + 1 := by
  rw [Catalogue.takeNode]
  split
  · next above isAbove =>
      obtain ⟨key, below, found⟩ := keptAbove_eq_some straight isAbove
      refine ⟨stands.fold found below, ?_⟩
      have listed : above.node.id ∈ kept.keys := by
        rw [stands.keyed found]
        exact OrderedMap.mem_keys.mpr ⟨above, found⟩
      rw [size_set, if_pos listed]
      exact Nat.le_succ _
  · next isMissing =>
      have begun := stands.begin new
        (fun key below => keptAbove_eq_none straight isMissing below) written
      split
      · have absorbed := begun.foldl straight
        exact ⟨absorbed.stands, absorbed.size⟩
      · next isFile =>
          refine ⟨begun.stands_of_none fun id below => ?_, begun.size⟩
          obtain ⟨child, _, step⟩ := Relation.TransGen.tail'_iff.mp below
          rw [folders step isHeld] at isFile
          cases isFile

end Standing

section Walk

variable {parents : Parents Id}
  {held : OrderedMap Id (DriveNode Id Name Stamp Rest)}
  {kept : OrderedMap Id (Kept Id Name Stamp Rest)}
  {taken order : List (Kept Id Name Stamp Rest)}
  {limit : Nat}

/-- An order of the nodes held, each once and with its own change. -/
structure Lined
    (held : OrderedMap Id (DriveNode Id Name Stamp Rest))
    (order : List (Kept Id Name Stamp Rest)) :
    Prop where
  distinct : (order.map fun given => given.node.id).Nodup
  held : ∀ given ∈ order, held.get? given.node.id = some given.node
  written : ∀ given ∈ order, given.iso = given.node.updatedAt

/-- What a walk leaves: rows that stand for what it took, within the limit. -/
structure Walked
    (parents : Parents Id)
    (held : OrderedMap Id (DriveNode Id Name Stamp Rest))
    (limit : Nat)
    (taken order : List (Kept Id Name Stamp Rest))
    (walk : OrderedMap Id (Kept Id Name Stamp Rest) ×
      List (Kept Id Name Stamp Rest)) :
    Prop where
  stands : Stands parents held (taken ++ walk.2) walk.1
  size : walk.1.size ≤ limit
  begins : ∃ rest, order = walk.2 ++ rest ∧ (walk.1.size < limit → rest = [])

/-- The walk keeps its rows standing until the limit ends it. -/
theorem Stands.walk
    (straight : Straight parents held)
    (folders : ThroughFolders parents held)
    (lined : Lined held (taken ++ order))
    (stands : Stands parents held taken kept)
    (size : kept.size ≤ limit) :
    Walked parents held limit taken order (walk parents held limit kept order) := by
  induction order generalizing taken kept with
  | nil =>
    exact {
      stands := by
        rw [Catalogue.walk, append_nil]
        exact stands
      size := by
        rw [Catalogue.walk]
        exact size
      begins := ⟨[], by rw [Catalogue.walk]; rfl, fun _ => rfl⟩
    }
  | cons given rest inductionHypothesis =>
    by_cases full : limit ≤ kept.size
    · have ended : Catalogue.walk parents held limit kept (given :: rest) =
          (kept, []) := by
        rw [Catalogue.walk, if_pos full]
      rw [ended]
      exact {
        stands := by
          rw [append_nil]
          exact stands
        size := size
        begins := ⟨given :: rest, rfl, fun fewer => absurd fewer (not_lt.mpr full)⟩
      }
    · have new : given.node.id ∉ kept.keys := by
        intro listed
        obtain ⟨row, found⟩ := OrderedMap.mem_keys.mp listed
        obtain ⟨earlier, member, same⟩ := stands.known found
        have distinct := lined.distinct
        rw [map_append, nodup_append] at distinct
        refine distinct.2.2 _ (mem_map_of_mem member) given.node.id
          (by simp) ?_
        rw [same]
        exact stands.keyed found
      obtain ⟨following, grown⟩ := stands.takeNode straight folders
        (lined.held given (by simp)) new (lined.written given (by simp))
      have spread : taken ++ given :: rest = (taken ++ [given]) ++ rest := by
        simp
      rw [spread] at lined
      have walked := inductionHypothesis lined following (by omega)
      rw [Catalogue.walk, if_neg full]
      obtain ⟨left, split, all⟩ := walked.begins
      exact {
        stands := by
          have stood := walked.stands
          rw [append_assoc] at stood
          exact stood
        size := walked.size
        begins := ⟨left, congrArg (given :: ·) split, all⟩
      }

end Walk

section Rows

variable {nodes : List (DriveNode Id Name Stamp Rest)}

theorem heldOf_concat
    (nodes : List (DriveNode Id Name Stamp Rest))
    (node : DriveNode Id Name Stamp Rest) :
    heldOf (nodes ++ [node]) = (heldOf nodes).set node.id node := by
  rw [heldOf, foldl_append]
  rfl

theorem mem_of_heldOf
    {id : Id}
    {node : DriveNode Id Name Stamp Rest}
    (found : (heldOf nodes).get? id = some node) :
    node ∈ nodes ∧ node.id = id := by
  induction nodes using List.reverseRecOn with
  | nil => cases found
  | append_singleton nodes last inductionHypothesis =>
    rw [heldOf_concat, get?_set] at found
    split at found
    · next same =>
        cases found
        exact ⟨by simp, same.symm⟩
    · have earlier := inductionHypothesis found
      exact ⟨mem_append_left _ earlier.1, earlier.2⟩

theorem heldOf_of_mem
    {node : DriveNode Id Name Stamp Rest}
    (member : node ∈ nodes) :
    ∃ last, (heldOf nodes).get? node.id = some last := by
  induction nodes using List.reverseRecOn with
  | nil => cases member
  | append_singleton nodes last inductionHypothesis =>
    rw [heldOf_concat]
    simp only [get?_set]
    split
    · exact ⟨last, rfl⟩
    · next differs =>
        rcases mem_append.mp member with earlier | own
        · exact inductionHypothesis earlier
        · exact absurd (congrArg DriveNode.id (mem_singleton.mp own)) differs

variable (collation : Name → Key) (timeOf : Stamp → Int)

theorem newer_total (first second : Kept Id Name Stamp Rest) :
    (newer collation first second || newer collation second first) = true := by
  simp only [newer, Bool.or_eq_true]
  rcases lt_trichotomy first.at_ second.at_ with before | same | after
  · simp [before.ne, before.ne', before]
  · rcases lt_trichotomy (collation first.node.name) (collation second.node.name)
      with before | sameName | after
    · simp [same, before.ne, before.ne', before]
    · simp [same, sameName, le_total]
    · simp [same, after.ne, after.ne', after]
  · simp [after.ne, after.ne', after]

theorem newer_trans
    (first second third : Kept Id Name Stamp Rest)
    (before : newer collation first second = true)
    (after : newer collation second third = true) :
    newer collation first third = true := by
  simp only [newer, ne_eq, ite_not, Bool.ite_eq_true_distrib, decide_eq_true_eq]
    at before after ⊢
  grind

theorem at_le_of_newer
    {first second : Kept Id Name Stamp Rest}
    (before : newer collation first second = true) :
    second.at_ ≤ first.at_ := by
  rw [newer] at before
  split at before
  · exact (of_decide_eq_true before).le
  · next same => exact (not_not.mp same).ge

theorem pairwise_newer (rows : List (Kept Id Name Stamp Rest)) :
    (rows.mergeSort (newer collation)).Pairwise fun first second =>
      second.at_ ≤ first.at_ :=
  (pairwise_mergeSort (newer_trans collation) (newer_total collation) rows).imp
    fun before => at_le_of_newer collation before

theorem mem_orderOf
    {given : Kept Id Name Stamp Rest} :
    given ∈ orderOf collation timeOf (heldOf nodes) ↔
      (heldOf nodes).get? given.node.id = some given.node ∧
        given.at_ = timeOf given.node.updatedAt ∧
        given.iso = given.node.updatedAt := by
  rw [orderOf, mem_mergeSort, mem_map]
  constructor
  · rintro ⟨node, member, rfl⟩
    obtain ⟨id, found⟩ := mem_values.mp member
    have own := (mem_of_heldOf found).2
    exact ⟨own ▸ found, rfl, rfl⟩
  · rintro ⟨found, isTime, isWritten⟩
    refine ⟨given.node, mem_values.mpr ⟨_, found⟩, ?_⟩
    obtain ⟨node, at_, iso⟩ := given
    simp only at isTime isWritten
    rw [isTime, isWritten]

/-- The walk's order lists each held node once. -/
theorem lined_orderOf (nodes : List (DriveNode Id Name Stamp Rest)) :
    Lined (heldOf nodes) (orderOf collation timeOf (heldOf nodes)) where
  distinct := by
    have ids : (heldOf nodes).values.map DriveNode.id = (heldOf nodes).keys := by
      rw [OrderedMap.values, OrderedMap.keys, map_map]
      exact map_congr_left fun entry member =>
        (mem_of_heldOf (get?_eq_some.mpr member)).2
    have perm := (mergeSort_perm ((heldOf nodes).values.map fun node =>
      ({ node, at_ := timeOf node.updatedAt, iso := node.updatedAt } :
        Kept Id Name Stamp Rest)) (newer collation)).map fun given => given.node.id
    rw [map_map] at perm
    refine perm.nodup_iff.mpr ?_
    change ((heldOf nodes).values.map DriveNode.id).Nodup
    rw [ids]
    exact (heldOf nodes).keys_nodup
  held given member := ((mem_orderOf collation timeOf).mp member).1
  written given member := ((mem_orderOf collation timeOf).mp member).2.2

theorem mem_collapseRecent
    {parents : Parents Id}
    {limit : Nat}
    {row : RecentNode Id Name Stamp Rest} :
    row ∈ collapseRecent collation timeOf parents limit nodes ↔
      ∃ key kept,
        (recentWalk collation timeOf parents limit nodes).1.get? key = some kept ∧
          row = { node := kept.node, recentAt := kept.iso } := by
  simp only [collapseRecent, mem_map, mem_mergeSort, mem_values]
  constructor
  · rintro ⟨kept, ⟨key, found⟩, rfl⟩
    exact ⟨key, kept, found, rfl⟩
  · rintro ⟨key, kept, found, rfl⟩
    exact ⟨kept, ⟨key, found⟩, rfl⟩

theorem length_collapseRecent (parents : Parents Id) (limit : Nat) :
    (collapseRecent collation timeOf parents limit nodes).length =
      (recentWalk collation timeOf parents limit nodes).1.size := by
  rw [collapseRecent, length_map, length_mergeSort, OrderedMap.values,
    length_map]
  rfl

theorem walked_recentWalk
    {parents : Parents Id}
    (straight : Straight parents (heldOf nodes))
    (folders : ThroughFolders parents (heldOf nodes))
    (limit : Nat) :
    Walked parents (heldOf nodes) limit []
      (orderOf collation timeOf (heldOf nodes))
      (recentWalk collation timeOf parents limit nodes) := by
  have empty : Stands parents (heldOf nodes) []
      (OrderedMap.empty : OrderedMap Id (Kept Id Name Stamp Rest)) := {
    keyed := fun found => by cases found
    known := fun found => by cases found
    apart := fun listed => by cases listed
    covers := fun _ member => by cases member
    newest := fun found => by cases found
    latest := fun found => by cases found
  }
  exact empty.walk straight folders (lined_orderOf collation timeOf nodes)
    (Nat.zero_le limit)

/--
The rows of Recent, over any nodes whose parents lead only through folders and in
no circle: at most the limit, none below another, each for the newest change of
what was taken at or below it, and everything taken at or below exactly one.
What is taken is the newest there is, and all there is if rows are wanting.
-/
theorem collapseRecent_rows
    (parents : Parents Id)
    (limit : Nat)
    (nodes : List (DriveNode Id Name Stamp Rest))
    (straight : Straight parents (heldOf nodes))
    (folders : ThroughFolders parents (heldOf nodes)) :
    (collapseRecent collation timeOf parents limit nodes).length ≤ limit ∧
    (∀ row ∈ collapseRecent collation timeOf parents limit nodes,
      ∀ other ∈ collapseRecent collation timeOf parents limit nodes,
        ¬ Below parents (heldOf nodes) row.node.id other.node.id) ∧
    (∃ rest,
      orderOf collation timeOf (heldOf nodes) =
        (recentWalk collation timeOf parents limit nodes).2 ++ rest) ∧
    ((orderOf collation timeOf (heldOf nodes)).Pairwise fun first second =>
      timeOf second.node.updatedAt ≤ timeOf first.node.updatedAt) ∧
    (∀ given ∈ (recentWalk collation timeOf parents limit nodes).2,
      given.node ∈ nodes ∧
        ∃! row, row ∈ collapseRecent collation timeOf parents limit nodes ∧
          Within parents (heldOf nodes) given.node.id row.node.id) ∧
    (∀ row ∈ collapseRecent collation timeOf parents limit nodes,
      (∃ given ∈ (recentWalk collation timeOf parents limit nodes).2,
        given.node = row.node) ∧
        ∃ given ∈ (recentWalk collation timeOf parents limit nodes).2,
          Within parents (heldOf nodes) given.node.id row.node.id ∧
            row.recentAt = given.node.updatedAt ∧
            ∀ other ∈ (recentWalk collation timeOf parents limit nodes).2,
              Within parents (heldOf nodes) other.node.id row.node.id →
              timeOf other.node.updatedAt ≤ timeOf given.node.updatedAt) ∧
    ((collapseRecent collation timeOf parents limit nodes).length < limit →
      ∀ node ∈ nodes,
        ∃ given ∈ (recentWalk collation timeOf parents limit nodes).2,
          given.node.id = node.id ∧
            ((nodes.map DriveNode.id).Nodup → given.node = node)) := by
  have walked := walked_recentWalk collation timeOf straight folders limit
  obtain ⟨rest, split, all⟩ := walked.begins
  have stands := walked.stands
  rw [nil_append] at stands
  have inOrder : ∀ given ∈ (recentWalk collation timeOf parents limit nodes).2,
      given ∈ orderOf collation timeOf (heldOf nodes) := by
    intro given member
    rw [split]
    exact mem_append_left _ member
  have timed : ∀ given ∈ (recentWalk collation timeOf parents limit nodes).2,
      given.at_ = timeOf given.node.updatedAt :=
    fun given member => ((mem_orderOf collation timeOf).mp (inOrder given member)).2.1
  refine ⟨?_, ?_, ⟨rest, split⟩, ?_, ?_, ?_, ?_⟩
  · rw [length_collapseRecent]
    exact walked.size
  · intro row isRow other isOther
    obtain ⟨key, kept, found, rfl⟩ := (mem_collapseRecent collation timeOf).mp isRow
    obtain ⟨otherKey, otherKept, otherFound, rfl⟩ :=
      (mem_collapseRecent collation timeOf).mp isOther
    change ¬ Below parents (heldOf nodes) kept.node.id otherKept.node.id
    rw [stands.keyed found, stands.keyed otherFound]
    exact stands.apart (OrderedMap.mem_keys.mpr ⟨_, found⟩)
      (OrderedMap.mem_keys.mpr ⟨_, otherFound⟩)
  · refine List.Pairwise.imp_of_mem ?_ (pairwise_newer collation _)
    intro first second isFirst isSecond before
    have firstTimed := ((mem_orderOf collation timeOf).mp isFirst).2.1
    have secondTimed := ((mem_orderOf collation timeOf).mp isSecond).2.1
    rw [← firstTimed, ← secondTimed]
    exact before
  · intro given member
    have isHeld := ((mem_orderOf collation timeOf).mp (inOrder given member)).1
    refine ⟨(mem_of_heldOf isHeld).1, ?_⟩
    obtain ⟨key, listed, within⟩ := stands.covers given member
    obtain ⟨kept, found⟩ := OrderedMap.mem_keys.mp listed
    refine ⟨{ node := kept.node, recentAt := kept.iso },
      ⟨(mem_collapseRecent collation timeOf).mpr ⟨key, kept, found, rfl⟩, ?_⟩, ?_⟩
    · change Within parents (heldOf nodes) given.node.id kept.node.id
      rw [stands.keyed found]
      exact within
    · rintro other ⟨isOther, alsoWithin⟩
      obtain ⟨otherKey, otherKept, otherFound, rfl⟩ :=
        (mem_collapseRecent collation timeOf).mp isOther
      change Within parents (heldOf nodes) given.node.id otherKept.node.id at alsoWithin
      rw [stands.keyed otherFound] at alsoWithin
      have alsoListed := OrderedMap.mem_keys.mpr ⟨otherKept, otherFound⟩
      -- Two rows the node lies within would lie within one another.
      rcases within.total alsoWithin with same | up | up
      · subst same
        rw [found] at otherFound
        cases otherFound
        rfl
      · exact absurd up (stands.apart listed alsoListed)
      · exact absurd up (stands.apart alsoListed listed)
  · intro row isRow
    obtain ⟨key, kept, found, rfl⟩ := (mem_collapseRecent collation timeOf).mp isRow
    refine ⟨stands.known found, ?_⟩
    obtain ⟨given, member, within, isTime, isWritten⟩ := stands.newest found
    have own := stands.keyed found
    refine ⟨given, member, own ▸ within, isWritten, ?_⟩
    intro other isTaken alsoWithin
    rw [← timed given member, ← timed other isTaken, ← isTime]
    exact stands.latest found other isTaken (own ▸ alsoWithin)
  · intro fewer node member
    rw [length_collapseRecent] at fewer
    rw [all fewer, append_nil] at split
    obtain ⟨last, isHeld⟩ := heldOf_of_mem member
    obtain ⟨inNodes, sameId⟩ := mem_of_heldOf isHeld
    refine ⟨{ node := last, at_ := timeOf last.updatedAt, iso := last.updatedAt },
      ?_, sameId, ?_⟩
    · rw [← split]
      exact (mem_orderOf collation timeOf).mpr ⟨sameId ▸ isHeld, rfl, rfl⟩
    · intro distinct
      exact inj_on_of_nodup_map distinct inNodes member sameId

end Rows

/-- A folder changed after a file in it stands for both. -/
theorem collapseRecent_rows_folder :
    let folder : DriveNode Nat Nat Int Unit := ⟨0, none, .folder, 0, 2, ()⟩
    let file : DriveNode Nat Nat Int Unit := ⟨1, some 0, .file, 1, 1, ()⟩
    let parents : Parents Nat := ⟨fun _ => none, [], fun _ _ => rfl⟩
    let rows := collapseRecent id id parents 5 [folder, file]
    let taken := (recentWalk id id parents 5 [folder, file]).2
    rows.length ≤ 5 ∧
      (∀ given ∈ taken, ∃! row, row ∈ rows ∧
        Within parents (heldOf [folder, file]) given.node.id row.node.id) ∧
      (rows.length < 5 → ∃ given ∈ taken, given.node = file) := by
  intro folder file parents
  have up : ∀ {child parent}, Up parents (heldOf [folder, file]) child parent →
      child = 1 ∧ parent = 0 := by
    intro child parent step
    rcases child with _ | _ | child
    · cases step
    · cases step
      exact ⟨rfl, rfl⟩
    · cases step
  have straight : Straight parents (heldOf [folder, file]) := by
    intro id circle
    obtain ⟨parent, first, _⟩ := Relation.TransGen.head'_iff.mp circle
    obtain ⟨child, _, last⟩ := Relation.TransGen.tail'_iff.mp circle
    have isOne := (up first).1
    have isZero := (up last).2
    omega
  have folders : ThroughFolders parents (heldOf [folder, file]) := by
    intro id parent node step found
    obtain ⟨_, rfl⟩ := up step
    cases found
    rfl
  obtain ⟨few, _, _, _, covered, _, whole⟩ :=
    collapseRecent_rows id id parents 5 [folder, file] straight folders
  refine ⟨few, fun given member => (covered given member).2, fun fewer => ?_⟩
  obtain ⟨given, member, _, same⟩ :=
    whole fewer file (mem_cons_of_mem _ (mem_singleton_self _))
  exact ⟨given, member, same (by decide)⟩

end Catalogue

end HushOS
