import HushOS.Drive.Heights

namespace HushOS

open Toolkit List

namespace Drive

/-!
# Tables with other trash times

Moving nodes to the trash and back changes their times, their numbers and the
workspace's counter.  A write's checks read of all that the times alone, so
what they find in tables changed so follows from the first tables and the times.
-/

/-- A row without its change number. -/
def Node.unnumbered (row : Node) : Node :=
  { row with changeSeq := none }

/-- A row at another trash time, without its change number. -/
def Node.timed (row : Node) (trashedAt : Option Nat) : Node :=
  { row with trashedAt := trashedAt, changeSeq := none }

/-- A workspace without its counter. -/
def Workspace.uncounted (row : Workspace) : Workspace :=
  { row with changeSeq := 0 }

/-- The trash times of the nodes. -/
def timesOf (db : Database) (id : Uuid) : Option Nat :=
  (db.nodes.get? id).bind Node.trashedAt

/-- Tables that differ from others in trash times, numbers and counters. -/
structure Retimed
    (db : Database)
    (times : Uuid → Option Nat)
    (after : Database) : Prop where
  nodes : ∀ id, (after.nodes.get? id).map Node.unnumbered =
    (db.nodes.get? id).map fun row => row.timed (times id)
  workspaces : ∀ id, (after.workspaces.get? id).map Workspace.uncounted =
    (db.workspaces.get? id).map Workspace.uncounted
  shares : after.shares = db.shares
  accounts : after.accounts = db.accounts

section Writers

variable {db after : Database} {times : Uuid → Option Nat}

theorem retimed_self (db : Database) : Retimed db (timesOf db) db where
  nodes := by
    intro id
    cases found : db.nodes.get? id with
    | none => rfl
    | some row =>
      simp only [Option.map_some, Node.unnumbered, Node.timed, timesOf, found,
        Option.bind_some]
  workspaces := fun _ => rfl
  shares := rfl
  accounts := rfl

theorem Retimed.alike
    {other : Database}
    (retimed : Retimed db times after)
    (again : Retimed db times other)
    (id : Uuid) :
    (after.nodes.get? id).map Node.unnumbered =
      (other.nodes.get? id).map Node.unnumbered :=
  (retimed.nodes id).trans (again.nodes id).symm

theorem Retimed.timesOf
    (retimed : Retimed db times after)
    {id : Uuid}
    {row : Node}
    (found : db.nodes.get? id = some row) :
    timesOf after id = times id := by
  have same := retimed.nodes id
  rw [found] at same
  obtain ⟨later, isLater, equal⟩ := Option.map_eq_some_iff.mp same
  rw [Drive.timesOf, isLater]
  change later.unnumbered.trashedAt = times id
  rw [equal]
  rfl

theorem Retimed.more
    (retimed : Retimed db times after)
    (workspaceId count : Nat) :
    Retimed db times (moreChangeSeqs after workspaceId count) where
  nodes := retimed.nodes
  workspaces := by
    intro id
    rw [← retimed.workspaces id, moreChangeSeqs, Database.setWorkspace,
      get?_updateById]
    split
    · rw [Option.map_map]
      rfl
    · rfl
  shares := retimed.shares
  accounts := retimed.accounts

theorem of_uncounted
    {first second : Workspace}
    (same : first.uncounted = second.uncounted) :
    first.groupId = second.groupId ∧ first.deletedAt = second.deletedAt := by
  have groups : first.uncounted.groupId = second.uncounted.groupId := by
    rw [same]
  have deleted : first.uncounted.deletedAt = second.uncounted.deletedAt := by
    rw [same]
  exact ⟨groups, deleted⟩

theorem Retimed.holdsWorkspace
    (retimed : Retimed db times after)
    (userId workspaceId : Uuid) :
    holdsWorkspace after userId workspaceId =
      holdsWorkspace db userId workspaceId := by
  have same := retimed.workspaces workspaceId
  unfold Drive.holdsWorkspace
  rw [retimed.accounts]
  cases here : after.workspaces.get? workspaceId with
  | none =>
    rw [here] at same
    rw [Option.map_eq_none_iff.mp same.symm]
  | some row =>
    rw [here] at same
    obtain ⟨earlier, isEarlier, equal⟩ := Option.map_eq_some_iff.mp same.symm
    obtain ⟨groups, deleted⟩ := of_uncounted equal
    rw [isEarlier]
    simp only [groups, deleted]

/-- Trash times do not enter the lock. -/
theorem Retimed.lock
    (retimed : Retimed db times after)
    (workspaceId : Uuid)
    (writer : Option Uuid)
    (now : Nat) :
    (nextChangeSeq after workspaceId writer false now).map (fun _ => ()) =
      (nextChangeSeq db workspaceId writer false now).map fun _ => () := by
  have same := retimed.workspaces workspaceId
  have locked := retimed.more workspaceId 1
  have lockedToo := (retimed_self db).more workspaceId 1
  unfold nextChangeSeq
  cases here : after.workspaces.get? workspaceId with
  | none =>
    rw [here] at same
    rw [Option.map_eq_none_iff.mp same.symm]
  | some row =>
    rw [here] at same
    obtain ⟨earlier, isEarlier, equal⟩ := Option.map_eq_some_iff.mp same.symm
    obtain ⟨groups, _⟩ := of_uncounted equal
    rw [isEarlier]
    cases writer with
    | none => rfl
    | some writer =>
      have still : requireStillWriter (moreChangeSeqs after workspaceId 1)
            workspaceId writer row.groupId false now =
          requireStillWriter (moreChangeSeqs db workspaceId 1)
            workspaceId writer earlier.groupId false now := by
        unfold requireStillWriter
        rw [groups]
        cases row.groupId with
        | none => rfl
        | some groupId =>
          simp only [heldIn, holdsEditorShare, locked.holdsWorkspace,
            lockedToo.holdsWorkspace, locked.accounts,
            lockedToo.accounts, locked.shares, lockedToo.shares]
      simp only [still]
      cases requireStillWriter (moreChangeSeqs db workspaceId 1)
          workspaceId writer earlier.groupId false now with
      | error _ => rfl
      | ok _ => rfl

end Writers

section Walks

variable {db after : Database} {times : Uuid → Option Nat}

/-- A walk whose node has no change number. -/
def Walk.unnumbered (chain : Walk) : Walk :=
  { chain with node := chain.node.unnumbered }

/-- The ids above a walked node, root first. -/
def Walk.idsAbove (chain : Walk) : List Uuid :=
  chain.ancestors.map Ancestor.id

/-- What a walk finds at other trash times. -/
def Walk.timed (chain : Walk) (times : Uuid → Option Nat) : Walk :=
  { chain with
    node := chain.node.timed (times chain.id)
    trashed := (chain.id :: chain.idsAbove).any fun id => (times id).isSome
    trashedAncestors := chain.idsAbove.filter fun id => (times id).isSome }

/-- Retimed rows give the same chain with the new times. -/
theorem chainFrom_retimed
    (retimed : Retimed db times after)
    (cap : Nat)
    (id : Uuid) :
    (chainFrom after.nodes cap id).map
        (fun row => (row.1, row.2.unnumbered)) =
      (chainFrom db.nodes cap id).map
        fun row => (row.1, row.2.timed (times row.1)) := by
  induction cap generalizing id with
  | zero => rfl
  | succ cap inductionHypothesis =>
    have same := retimed.nodes id
    unfold chainFrom
    cases found : db.nodes.get? id with
    | none =>
      rw [found] at same
      rw [Option.map_eq_none_iff.mp same]
      rfl
    | some row =>
      rw [found] at same
      obtain ⟨later, isLater, equal⟩ := Option.map_eq_some_iff.mp same
      have parent : later.parentId = row.parentId :=
        show later.unnumbered.parentId = _ by rw [equal]; rfl
      rw [isLater]
      simp only [map_cons, equal, parent]
      cases row.parentId with
      | none => rfl
      | some parentId => rw [inductionHypothesis parentId]

/-- The walk of a chain does not read the change numbers. -/
theorem chainWalk_unnumbered (rows : List (Uuid × Node)) :
    (chainWalk rows).map Walk.unnumbered =
      chainWalk (rows.map fun row => (row.1, row.2.unnumbered)) := by
  cases rows with
  | nil => rfl
  | cons self above =>
    have top : (above.map (fun row : Uuid × Node =>
          (row.1, row.2.unnumbered))).getLast?.getD
          (self.1, self.2.unnumbered) =
        ((above.getLast?.getD self).1,
          (above.getLast?.getD self).2.unnumbered) := by
      rw [getLast?_map]
      cases above.getLast? with
      | none => rfl
      | some _ => rfl
    simp only [map_cons, chainWalk, top]
    have root : (above.getLast?.getD self).2.unnumbered.parentId =
        (above.getLast?.getD self).2.parentId := rfl
    rw [root]
    split
    · simp [Walk.unnumbered, Node.unnumbered, ancestorOf, filter_map,
        Function.comp_def]
    · rfl

/-- The walk of retimed rows is the retimed walk. -/
theorem chainWalk_timed (rows : List (Uuid × Node)) :
    chainWalk (rows.map fun row => (row.1, row.2.timed (times row.1))) =
      (chainWalk rows).map fun chain => chain.timed times := by
  cases rows with
  | nil => rfl
  | cons self above =>
    have top : (above.map (fun row : Uuid × Node =>
          (row.1, row.2.timed (times row.1)))).getLast?.getD
          (self.1, self.2.timed (times self.1)) =
        ((above.getLast?.getD self).1,
          (above.getLast?.getD self).2.timed
            (times (above.getLast?.getD self).1)) := by
      rw [getLast?_map]
      cases above.getLast? with
      | none => rfl
      | some _ => rfl
    simp only [map_cons, chainWalk, top]
    have root : ((above.getLast?.getD self).2.timed
        (times (above.getLast?.getD self).1)).parentId =
        (above.getLast?.getD self).2.parentId := rfl
    rw [root]
    split
    · simp [Walk.timed, Walk.idsAbove, Node.timed, ancestorOf,
        filter_map, Function.comp_def]
    · rfl

theorem walk_retimed
    (retimed : Retimed db times after)
    (id : Uuid) :
    (walk after id).map Walk.unnumbered =
      (walk db id).map fun chain => chain.timed times := by
  rw [walk, chainWalk_unnumbered, chainFrom_retimed retimed, chainWalk_timed]
  rfl

theorem walk_retimed_eq_none
    (retimed : Retimed db times after)
    {id : Uuid} :
    walk after id = none ↔ walk db id = none := by
  have same := walk_retimed retimed id
  constructor
  · intro none_
    rw [none_] at same
    exact Option.map_eq_none_iff.mp same.symm
  · intro none_
    rw [none_] at same
    exact Option.map_eq_none_iff.mp same

theorem walk_retimed_eq_some
    (retimed : Retimed db times after)
    {id : Uuid}
    {chain : Walk}
    (reached : walk db id = some chain) :
    ∃ later, walk after id = some later ∧
      later.unnumbered = chain.timed times := by
  have same := walk_retimed retimed id
  rw [reached] at same
  obtain ⟨later, isLater, equal⟩ := Option.map_eq_some_iff.mp same
  exact ⟨later, isLater, equal⟩

end Walks

section Above

variable {db : Database}

/-- From any row of a climb the rest of it is climbed. -/
theorem climb_of_mem
    {nodes : OrderedMap Uuid Node}
    {id : Uuid}
    {self row : Uuid × Node}
    {below above : List (Uuid × Node)}
    (climb : Climb nodes id (self :: (below ++ row :: above))) :
    Climb nodes row.1 (row :: above) := by
  induction below generalizing id self with
  | nil =>
    obtain ⟨_, _, upper⟩ := climb
    cases parent : self.2.parentId with
    | none =>
      rw [parent] at upper
      cases upper
    | some parentId =>
      rw [parent] at upper
      simp only [nil_append] at upper
      have same : row.1 = parentId := upper.1
      exact same ▸ upper
  | cons next rest inductionHypothesis =>
    obtain ⟨_, _, upper⟩ := climb
    cases parent : self.2.parentId with
    | none =>
      rw [parent] at upper
      cases upper
    | some parentId =>
      rw [parent] at upper
      exact inductionHypothesis upper

/-- A node above has the upper part of the walk as its own. -/
theorem walk_of_above
    {id other : Uuid}
    {chain : Walk}
    {before rest : List Uuid}
    (reached : walk db id = some chain)
    (splits : chain.idsAbove = before ++ other :: rest) :
    ∃ upper, walk db other = some upper ∧ upper.idsAbove = before := by
  obtain ⟨self, rows, climb, short, rfl⟩ := walk_eq_some.mp reached
  have ids : rows.map Prod.fst = rest.reverse ++ other :: before.reverse := by
    have nearest := nearestFirst_walkOf self rows
    rw [nearestFirst] at nearest
    change ((walkOf self rows).idsAbove).reverse = _ at nearest
    rw [← nearest, splits]
    simp
  obtain ⟨below, upper, rfl, isRest, isUpper⟩ := map_eq_append_iff.mp ids
  obtain ⟨row, above, rfl, isOther, isAbove⟩ := map_eq_cons_iff.mp isUpper
  have onwards := climb_of_mem climb
  rw [isOther] at onwards
  refine ⟨walkOf row above, walk_eq_some.mpr ⟨row, above, onwards, ?_, rfl⟩, ?_⟩
  · simp only [length_cons, length_append] at short ⊢
    omega
  · have nearest := nearestFirst_walkOf row above
    rw [nearestFirst, isAbove] at nearest
    change ((walkOf row above).idsAbove).reverse = _ at nearest
    exact reverse_inj.mp nearest

theorem idsAbove_of_walk
    {id : Uuid}
    {chain : Walk}
    (reached : walk db id = some chain) :
    idsAbove db id = chain.idsAbove := by
  rw [idsAbove, reached]
  rfl

theorem not_mem_idsAbove (id : Uuid) : id ∉ idsAbove db id := by
  cases reached : walk db id with
  | none => simp [idsAbove, reached]
  | some chain =>
    rw [idsAbove_of_walk reached]
    obtain ⟨self, rows, climb, _, rfl⟩ := walk_eq_some.mp reached
    have apart := not_mem_lineage (lineage_of_climb climb)
    rw [← nearestFirst_walkOf self rows, nearestFirst, mem_reverse] at apart
    exact apart

end Above

end Drive

end HushOS
