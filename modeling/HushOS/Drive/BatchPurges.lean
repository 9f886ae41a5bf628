import HushOS.Drive.BatchRestores

namespace HushOS

open Toolkit List

namespace Drive

/-!
# Batches deleted forever

A batch purges its outermost nodes one after the other, from the walks it took
first, as a single purge of each would.  A purge touches no other node's row,
so what one leaves is what the next was decided on.
-/

/-- Whether `purgeNode`, as its route asks for it, purges a node. -/
def mayPurge (db : Database) (workspaceId writer now id : Nat) : Bool :=
  holdsWorkspace db writer workspaceId &&
    (purgeNode db workspaceId id (some writer) now).1 = .ok

/-- Whether a node keeps its key from before a rotation still running. -/
def keepsKey (db : Database) (id : Uuid) : Bool :=
  ((db.nodes.get? id).bind Node.prevKey).isSome

/-- Whether no node of a request that may be deleted stands above one. -/
def uncovered
    (db : Database)
    (workspaceId : Uuid)
    (ids : List Uuid)
    (id : Uuid) : Bool :=
  (idsAbove db id).all fun other =>
    !(passing (fun id => purgeRefusal (walk db id) workspaceId) ids).contains
      other

/-- The uncovered nodes of a request that a single purge takes. -/
def purgeable
    (db : Database)
    (workspaceId writer now : Nat)
    (ids : List Uuid) : List Uuid :=
  ids.filter fun id =>
    mayPurge db workspaceId writer now id && uncovered db workspaceId ids id

section Rows

variable {db : Database} {workspaceId id now : Nat}

theorem workspaces_retireNamed (db : Database) (objectId : Option Uuid) :
    (db.retireNamed objectId).workspaces = db.workspaces := by
  cases objectId with
  | none => rfl
  | some objectId =>
    change (db.retireObjectIfUnreferenced objectId).workspaces = db.workspaces
    unfold Database.retireObjectIfUnreferenced
    split
    · rfl
    · split
      · rfl
      · rfl

theorem workspaces_purgeVersion
    (db : Database)
    (workspaceId : Uuid)
    (version : PurgedVersion) :
    (purgeVersion db workspaceId version).workspaces = db.workspaces := by
  unfold purgeVersion purgeReady purgeUncounted
  split
  · rfl
  · split
    · exact workspaces_retireNamed _ _
    · exact workspaces_retireNamed _ _
  · split
    · split
      · rfl
      · unfold releaseUpload
        exact workspaces_retireNamed _ _
      · unfold releaseUpload
        exact workspaces_retireNamed _ _
      · exact workspaces_retireNamed _ _
      · exact workspaces_retireNamed _ _
    · exact workspaces_retireNamed _ _

theorem workspaces_purgeVersions
    (workspaceId : Uuid)
    (versions : List PurgedVersion)
    (db : Database) :
    (versions.foldl
      (fun db version => purgeVersion db workspaceId version) db).workspaces =
        db.workspaces := by
  induction versions generalizing db with
  | nil => rfl
  | cons version rest inductionHypothesis =>
    rw [foldl_cons, inductionHypothesis, workspaces_purgeVersion]

theorem idsAbove_congr
    {other : Database}
    (same : other.nodes = db.nodes)
    (id : Uuid) :
    idsAbove other id = idsAbove db id := by
  rw [idsAbove, idsAbove, walk, walk, same]

/-- Purging a free row leaves its tombstone and no other change. -/
theorem purgeOne_of_row
    {row : Node}
    (found : db.nodes.get? id = some row)
    (inside : row.workspaceId = workspaceId)
    (kept : row.purgedAt = none)
    (unkeyed : keepsKey db id = false)
    (changeSeq : Nat)
    (above : Option (List Uuid)) :
    ∃ after, purgeOne db workspaceId id changeSeq above now = .ok after ∧
      after.workspaces = db.workspaces ∧
      ∀ other, after.nodes.get? other =
        if other = id then
          some (tombstone changeSeq now (above.getD (idsAbove db id)) row)
        else
          db.nodes.get? other := by
  have noKey : row.prevKey.isSome = false := by
    rw [keepsKey, found] at unkeyed
    exact unkeyed
  have emptied := (purges_purgeVersions workspaceId
    (versionsWhere db fun _ row => row.nodeId = id) db).nodes
  have spaces := workspaces_purgeVersions workspaceId
    (versionsWhere db fun _ row => row.nodeId = id) db
  unfold purgeOne
  rw [found]
  simp only [if_pos (And.intro inside kept), noKey, Bool.false_eq_true, if_false]
  refine ⟨_, rfl, spaces, fun other => ?_⟩
  have walked := idsAbove_congr emptied id
  rw [idsAbove] at walked
  rw [walked, revokeShares, Database.setNode, get?_updateById, emptied]
  by_cases same : other = id
  · rw [if_pos same, if_pos same, same, found]
    rfl
  · rw [if_neg same, if_neg same]

theorem purgeOne_of_key
    {row : Node}
    (found : db.nodes.get? id = some row)
    (inside : row.workspaceId = workspaceId)
    (kept : row.purgedAt = none)
    (keyed : keepsKey db id = true)
    (changeSeq : Nat)
    (above : Option (List Uuid)) :
    purgeOne db workspaceId id changeSeq above now =
      .error (.thrown .constraint) := by
  rw [keepsKey, found] at keyed
  unfold purgeOne
  rw [found]
  simp only [if_pos (And.intro inside kept)]
  exact if_pos keyed

/-- Purging free rows leaves a tombstone for each, numbered in order. -/
theorem purgeEach_of_rows
    {above : Uuid → List Uuid}
    {ids : List Uuid}
    (once : ids.Nodup)
    (each : ∀ id ∈ ids, keepsKey db id = false ∧ ∃ row, db.nodes.get? id = some row ∧
      row.workspaceId = workspaceId ∧ row.purgedAt = none)
    (changeSeq : Nat) :
    ∃ after, purgeEach workspaceId now above ids changeSeq db = .ok after ∧
      after.workspaces = db.workspaces ∧
      ∀ id, after.nodes.get? id = (db.nodes.get? id).map fun row =>
        match ids.idxOf? id with
        | none => row
        | some place => tombstone (changeSeq + place) now (above id) row := by
  induction ids generalizing db changeSeq with
  | nil =>
    refine ⟨db, rfl, rfl, fun id => ?_⟩
    simp
  | cons first rest inductionHypothesis =>
    obtain ⟨fresh, restOnce⟩ := nodup_cons.mp once
    obtain ⟨unkeyed, row, found, inside, kept⟩ := each first (by simp)
    obtain ⟨purged, isPurged, spaces, rows⟩ :=
      @purgeOne_of_row db workspaceId first now row found inside kept unkeyed
        changeSeq (some (above first))
    have others : ∀ id ∈ rest, purged.nodes.get? id = db.nodes.get? id := by
      intro id member
      rw [rows, if_neg]
      rintro rfl
      exact fresh member
    obtain ⟨after, isAfter, spacesAfter, rowsAfter⟩ :=
      @inductionHypothesis purged restOnce
        (fun id member => by
          obtain ⟨unkeyed, row, found, rest⟩ :=
            each id (mem_cons_of_mem first member)
          refine ⟨?_, row, ?_, rest⟩
          · rw [keepsKey, others id member]
            exact unkeyed
          · rw [others id member, found])
        (changeSeq + 1)
    refine ⟨after, ?_, spacesAfter.trans spaces, fun id => ?_⟩
    · rw [purgeEach, isPurged]
      exact isAfter
    · rw [rowsAfter, rows, idxOf?_cons]
      by_cases same : id = first
      · subst same
        rw [if_pos rfl, found, idxOf?_eq_none_iff.mpr fresh]
        simp
      · have differs : (first == id) = false := by
          simpa using fun equal => same equal.symm
        rw [if_neg same, differs]
        cases rest.idxOf? id with
        | none => simp
        | some place =>
          simp only [Bool.false_eq_true, ↓reduceIte, Option.map_some,
            Nat.add_assoc, Nat.add_comm 1 place]

end Rows

section Single

variable {db : Database} {workspaceId writer now id : Nat}

theorem purgeRefusal_eq_none {chain : Walk} :
    purgeRefusal (some chain) workspaceId = none ↔
      chain.here workspaceId = true ∧ chain.node.parentId ≠ none ∧
        chain.node.trashedAt ≠ none := by
  unfold purgeRefusal
  by_cases here : chain.here workspaceId = true
  · by_cases root : chain.node.parentId = none
    · simp [here, root]
    · by_cases trashed : chain.node.trashedAt = none
      · simp [here, root, trashed]
      · simp [here, root, trashed]
  · simp [here]

theorem standing_of_purgeRefusal
    (may : purgeRefusal (walk db id) workspaceId = none) :
    ∃ chain, walk db id = some chain ∧ db.nodes.get? id = some chain.node ∧
      chain.node.workspaceId = workspaceId ∧ chain.node.purgedAt = none := by
  cases reached : walk db id with
  | none =>
    rw [reached] at may
    cases may
  | some chain =>
    rw [reached, purgeRefusal_eq_none] at may
    have walked := walked_of_walk reached
    have here := may.1
    simp only [Walk.here, Bool.and_eq_true, decide_eq_true_eq,
      Bool.not_eq_true'] at here
    exact ⟨chain, rfl, walked.found, here.1, walked.kept here.2⟩

/-- A free node that may be purged is. -/
theorem purgeNode_of_free
    (enters : Enters db workspaceId writer now)
    (may : purgeRefusal (walk db id) workspaceId = none)
    (unkeyed : keepsKey db id = false) :
    ∃ workspace row after,
      db.workspaces.get? workspaceId = some workspace ∧
      db.nodes.get? id = some row ∧
      purgeNode db workspaceId id (some writer) now = (.ok, after) ∧
      after.nodes.get? id =
        some (tombstone (workspace.changeSeq + 1) now (idsAbove db id) row) := by
  obtain ⟨chain, _, found, inside, kept⟩ := standing_of_purgeRefusal may
  obtain ⟨workspace, isWorkspace, written⟩ :=
    @underLock_of_enters db workspaceId writer now
      (fun changeSeq locked => do
        refuseWith (purgeRefusal (walk locked id) workspaceId)
        let purged ← purgeOne locked workspaceId id changeSeq none now
        .ok (.ok, purged))
      enters
  obtain ⟨after, purged, _, rows⟩ :=
    @purgeOne_of_row (moreChangeSeqs db workspaceId 1) workspaceId id now _
      found inside kept unkeyed (workspace.changeSeq + 1) none
  refine ⟨workspace, chain.node, after, isWorkspace, found, ?_, ?_⟩
  · have mayLocked : purgeRefusal
        (walk (moreChangeSeqs db workspaceId 1) id) workspaceId = none := may
    rw [purgeNode, written, mayLocked]
    simp only [refuseWith, bind, Except.bind, purged]
  · rw [rows, if_pos rfl]
    rfl

theorem Outcome.answer_ne_ok (outcome : Outcome) : outcome.answer ≠ .ok := by
  cases outcome with
  | root => nofun
  | notTrashed => nofun
  | trashed => nofun
  | removed => nofun
  | parentTrashed => nofun
  | _ => nofun

/-- A node may be purged alone when the writer, walk and key allow. -/
theorem mayPurge_eq_true :
    mayPurge db workspaceId writer now id = true ↔
      holdsWorkspace db writer workspaceId = true ∧
        Enters db workspaceId writer now ∧
        purgeRefusal (walk db id) workspaceId = none ∧
        keepsKey db id = false := by
  rw [mayPurge, Bool.and_eq_true, decide_eq_true_eq]
  refine and_congr_right fun _ => ⟨fun accepted => ?_, fun free => ?_⟩
  · by_cases enters : Enters db workspaceId writer now
    · obtain ⟨workspace, _, written⟩ :=
        @underLock_of_enters db workspaceId writer now
          (fun changeSeq locked => do
            refuseWith (purgeRefusal (walk locked id) workspaceId)
            let purged ← purgeOne locked workspaceId id changeSeq none now
            .ok (.ok, purged))
          enters
      have same : purgeRefusal (walk (moreChangeSeqs db workspaceId 1) id)
          workspaceId = purgeRefusal (walk db id) workspaceId := rfl
      rw [purgeNode, written, same] at accepted
      cases may : purgeRefusal (walk db id) workspaceId with
      | some outcome =>
        rw [may] at accepted
        exact absurd accepted outcome.answer_ne_ok
      | none =>
        refine ⟨enters, rfl, ?_⟩
        obtain ⟨chain, _, found, inside, kept⟩ := standing_of_purgeRefusal may
        cases keeps : keepsKey db id with
        | false => rfl
        | true =>
          have stops := @purgeOne_of_key (moreChangeSeqs db workspaceId 1)
            workspaceId id now _ found inside kept keeps
            (workspace.changeSeq + 1) none
          rw [may] at accepted
          simp only [refuseWith, bind, Except.bind, stops] at accepted
          cases accepted
    · obtain ⟨reason, written⟩ :=
        @underLock_of_barred db workspaceId writer now _ enters
      rw [purgeNode, written] at accepted
      cases accepted
  · obtain ⟨_, _, after, _, _, written, _⟩ :=
      purgeNode_of_free free.1 free.2.1 free.2.2
    rw [written]

end Single

section Batch

variable {db : Database} {workspaceId writer inBudget now : Nat}
variable {ids : List Uuid}

/-- Why a node may not be deleted, as the batch's walk has it. -/
def purgeWalkRefusal (db : Database) (workspaceId id : Uuid) : Option Outcome :=
  purgeRefusal (walk db id) workspaceId

theorem mem_goingPurge {id : Uuid} :
    id ∈ going db (purgeWalkRefusal db workspaceId) ids ↔
      id ∈ ids ∧ purgeRefusal (walk db id) workspaceId = none ∧
        uncovered db workspaceId ids id = true := by
  rw [mem_going, passing, mem_filter, Option.isNone_iff_eq_none, and_assoc]
  refine and_congr_right fun _ => and_congr_right fun may => ?_
  obtain ⟨chain, reached, _⟩ := standing_of_purgeRefusal may
  rw [coveredBy_eq_none reached, uncovered, idsAbove_of_walk reached]
  simp only [all_eq_true, Bool.not_eq_true', ← Bool.not_eq_true,
    contains_iff_mem]
  rfl

/-- A node below a purged one is covered by it. -/
theorem coveredBy_of_going
    {refusal : Uuid → Option Outcome}
    {id other : Uuid}
    {chain : Walk}
    (reached : walk db other = some chain)
    (goes : id ∈ going db refusal ids)
    (above : id ∈ chain.idsAbove) :
    coveredBy db (passing refusal ids) other = some id := by
  obtain ⟨passes, outermost⟩ := mem_going.mp goes
  cases covered : coveredBy db (passing refusal ids) other with
  | none => exact absurd passes ((coveredBy_eq_none reached).mp covered id above)
  | some by_ =>
    simp only [coveredBy, reached, Option.bind_some, Option.map_eq_some_iff]
      at covered
    obtain ⟨ancestor, found, rfl⟩ := covered
    obtain ⟨byPasses, before, rest, splits, none_⟩ :=
      find?_eq_some_iff_append.mp found
    have ids_ : chain.idsAbove =
        before.map Ancestor.id ++ ancestor.id :: rest.map Ancestor.id := by
      rw [Walk.idsAbove, splits, map_append, map_cons]
    rw [ids_] at above
    rcases mem_append.mp above with outer | inner
    · obtain ⟨one, isOne, rfl⟩ := mem_map.mp outer
      have misses := none_ one isOne
      simp [passes] at misses
    · rcases mem_cons.mp inner with same | inner
      · rw [same]
      · -- Were it further in, the first that passes would stand above it.
        obtain ⟨between, after, isInner⟩ := append_of_mem inner
        rw [isInner, ← cons_append, ← append_assoc] at ids_
        obtain ⟨upper, isUpper, over_⟩ := walk_of_above reached ids_
        refine absurd (by simpa using byPasses)
          ((coveredBy_eq_none isUpper).mp outermost ancestor.id ?_)
        rw [over_]
        simp

/-- The nodes purgeable one by one are those going with a free key. -/
theorem purgeable_eq
    (holds : holdsWorkspace db writer workspaceId = true)
    (enters : Enters db workspaceId writer now) :
    purgeable db workspaceId writer now ids =
      (going db (purgeWalkRefusal db workspaceId) ids).filter fun id =>
        !keepsKey db id := by
  have goes : going db (purgeWalkRefusal db workspaceId) ids =
      ids.filter fun id => decide
        (id ∈ going db (purgeWalkRefusal db workspaceId) ids) := by
    rw [going, passing, filter_filter]
    refine filter_congr fun id asked => ?_
    rw [Bool.eq_iff_iff, decide_eq_true_eq, mem_filter]
    simp [asked]
  rw [goes, filter_filter, purgeable]
  refine filter_congr fun id asked => ?_
  rw [Bool.eq_iff_iff]
  simp only [Bool.and_eq_true, mayPurge_eq_true, holds, enters, true_and,
    decide_eq_true_eq, mem_goingPurge, asked, Bool.not_eq_true']
  tauto

theorem purgeable_eq_nil
    (barred : ¬ (holdsWorkspace db writer workspaceId = true ∧
      Enters db workspaceId writer now)) :
    purgeable db workspaceId writer now ids = [] := by
  rw [purgeable, filter_eq_nil_iff]
  intro id _ accepted
  rw [Bool.and_eq_true, mayPurge_eq_true] at accepted
  exact barred ⟨accepted.1.1, accepted.1.2.1⟩

/-- What of a batch its budget lets go. -/
def inTime
    (db : Database)
    (workspaceId inBudget : Nat)
    (ids : List Uuid) : List Uuid :=
  (going db (purgeWalkRefusal db workspaceId) ids).take (max 1 inBudget)

/-- A batch of free nodes purges each that its walk allows. -/
theorem purgeNodes_of_free
    (valid : batchValid ids = true)
    (holds : holdsWorkspace db writer workspaceId = true)
    (enters : Enters db workspaceId writer now)
    (unkeyed : ∀ id ∈ inTime db workspaceId inBudget ids,
      keepsKey db id = false) :
    ∃ workspace after, db.workspaces.get? workspaceId = some workspace ∧
      purgeNodes db workspaceId ids writer inBudget now =
        (.outcomes (ids.map fun id =>
          (id, purgeOutcome db (purgeWalkRefusal db workspaceId)
            (passing (purgeWalkRefusal db workspaceId) ids)
            (inTime db workspaceId inBudget ids)
            (workspace.changeSeq + 1) id)), after) ∧
      (∀ id, after.nodes.get? id = (db.nodes.get? id).map fun row =>
        match (inTime db workspaceId inBudget ids).idxOf? id with
        | none => row
        | some place =>
          tombstone (workspace.changeSeq + 1 + place) now (idsAbove db id)
            row) ∧
      (inTime db workspaceId inBudget ids ≠ [] → ∃ later,
        after.workspaces.get? workspaceId = some later ∧
          later.changeSeq = workspace.changeSeq +
            (inTime db workspaceId inBudget ids).length) := by
  obtain ⟨workspace, found, written⟩ :=
    @underLock_of_enters db workspaceId writer now
      (fun firstSeq locked => do
        let refusal := fun id => purgeRefusal (walk locked id) workspaceId
        let passed := passing refusal ids
        let done := (going locked refusal ids).take (max 1 inBudget)
        let purged ← purgeEach workspaceId now (idsAbove locked) done firstSeq
          locked
        .ok
          (.outcomes (ids.map fun id =>
            (id, purgeOutcome locked refusal passed done firstSeq id)),
            moreChangeSeqs purged workspaceId (done.length - 1)))
      enters
  obtain ⟨purged, isPurged, spaces, rows⟩ :=
    @purgeEach_of_rows (moreChangeSeqs db workspaceId 1) workspaceId now
      (idsAbove db) (inTime db workspaceId inBudget ids)
      ((nodup_going valid).sublist (take_sublist _ _))
      (fun id member => by
        obtain ⟨chain, _, standing⟩ := standing_of_purgeRefusal
          (mem_goingPurge.mp (mem_of_mem_take member)).2.1
        exact ⟨unkeyed id member, chain.node, standing⟩)
      (workspace.changeSeq + 1)
  refine ⟨workspace,
    moreChangeSeqs purged workspaceId
      ((inTime db workspaceId inBudget ids).length - 1),
    found, ?_, rows, fun some_ => ?_⟩
  · unfold purgeNodes
    have eachLocked : purgeEach workspaceId now
        (idsAbove (moreChangeSeqs db workspaceId 1))
        ((going (moreChangeSeqs db workspaceId 1)
          (fun id => purgeRefusal (walk (moreChangeSeqs db workspaceId 1) id)
            workspaceId) ids).take (max 1 inBudget))
        (workspace.changeSeq + 1) (moreChangeSeqs db workspaceId 1) =
          .ok purged := isPurged
    rw [valid, holds, written]
    simp only [eachLocked, bind, Except.bind]
    rfl
  · have counted := @workspace_more purged workspaceId
      ((inTime db workspaceId inBudget ids).length - 1)
      _ (spaces ▸ @workspace_more db workspaceId 1 workspace found)
    refine ⟨_, counted, ?_⟩
    have long := length_pos_iff.mpr some_
    simp only
    omega

/-- A batch deleted forever is its purgeable nodes, or those its budget allows. -/
structure PurgesEach
    (db : Database)
    (workspaceId writer inBudget now : Nat)
    (ids done : List Uuid) : Prop where
  within : done <+: purgeable db workspaceId writer now ids
  numbered : Numbered db workspaceId done
    (purgeNodes db workspaceId ids writer inBudget now).2
  alike : ∀ id ∈ done,
    ((purgeNodes db workspaceId ids writer inBudget now).2.nodes.get? id).map
        Node.unnumbered =
      ((purgeNode db workspaceId id (some writer) now).2.nodes.get? id).map
        Node.unnumbered
  rest : done ≠ purgeable db workspaceId writer now ids →
    done.length = max 1 inBudget ∧
      ∃ each, (purgeNodes db workspaceId ids writer inBudget now).1 =
          .outcomes each ∧
        ∀ id ∈ purgeable db workspaceId writer now ids, id ∉ done →
          (id, .busy) ∈ each ∧
          ∀ other ∈ ids, purgeRefusal (walk db other) workspaceId = none →
            id ∈ idsAbove db other → (other, .busy) ∈ each

/-- A writer who may not enter purges nothing. -/
theorem purgesEach_of_barred
    (valid : batchValid ids = true)
    (barred : ¬ (holdsWorkspace db writer workspaceId = true ∧
      Enters db workspaceId writer now)) :
    PurgesEach db workspaceId writer inBudget now ids [] := by
  have stays : (purgeNodes db workspaceId ids writer inBudget now).2 = db := by
    unfold purgeNodes
    rw [valid, Bool.not_true, if_neg Bool.false_ne_true]
    by_cases holds : holdsWorkspace db writer workspaceId = true
    · obtain ⟨reason, written⟩ :=
        @underLock_of_barred db workspaceId writer now _
          fun enters => barred ⟨holds, enters⟩
      rw [holds, Bool.not_true, if_neg Bool.false_ne_true, written]
    · rw [Bool.not_eq_true] at holds
      rw [holds, Bool.not_false, if_pos rfl]
  exact
    { within := nil_prefix
      numbered := by
        rw [stays]
        exact numbered_self db workspaceId
      alike := by
        intro id member
        cases member
      rest := fun more => absurd (purgeable_eq_nil barred).symm more }

/-- A batch whose nodes keep no key purges what is in time. -/
theorem purgesEach_of_free
    (valid : batchValid ids = true)
    (holds : holdsWorkspace db writer workspaceId = true)
    (enters : Enters db workspaceId writer now)
    (unkeyed : ∀ id ∈ inTime db workspaceId inBudget ids,
      keepsKey db id = false) :
    PurgesEach db workspaceId writer inBudget now ids
      (inTime db workspaceId inBudget ids) := by
  obtain ⟨workspace, after, found, ends, rows, counted⟩ :=
    purgeNodes_of_free valid holds enters unkeyed
  have once : (inTime db workspaceId inBudget ids).Nodup :=
    (nodup_going valid).sublist (take_sublist _ _)
  have goes : ∀ id ∈ inTime db workspaceId inBudget ids,
      id ∈ going db (purgeWalkRefusal db workspaceId) ids :=
    fun id member => mem_of_mem_take member
  have splits : purgeable db workspaceId writer now ids =
      inTime db workspaceId inBudget ids ++
        ((going db (purgeWalkRefusal db workspaceId) ids).drop
          (max 1 inBudget)).filter fun id => !keepsKey db id := by
    have all : (inTime db workspaceId inBudget ids).filter
        (fun id => !keepsKey db id) = inTime db workspaceId inBudget ids :=
      filter_eq_self.mpr fun id member => by simp [unkeyed id member]
    rw [purgeable_eq holds enters,
      ← take_append_drop (max 1 inBudget)
        (going db (purgeWalkRefusal db workspaceId) ids),
      filter_append, take_append_drop]
    exact congrArg (· ++ _) all
  refine
    { within := ?_
      numbered := ?_
      alike := ?_
      rest := ?_ }
  · rw [splits]
    exact prefix_append _ _
  · rw [ends]
    refine numbered_of_rows found once (fun id member => ?_) rows
      (fun _ _ _ => rfl) counted
    obtain ⟨chain, _, isRow, _⟩ :=
      standing_of_purgeRefusal (mem_goingPurge.mp (goes id member)).2.1
    rw [isRow, Option.isSome_some]
  · intro id member
    obtain ⟨_, row, single, _, isRow, alone, singleRow⟩ :=
      @purgeNode_of_free db workspaceId writer now id enters
        (mem_goingPurge.mp (goes id member)).2.1 (unkeyed id member)
    obtain ⟨place, at_⟩ := getElem?_of_mem member
    rw [ends, alone, singleRow, rows, isRow, idxOf?_of_getElem? once at_]
    rfl
  · intro more
    have left : (going db (purgeWalkRefusal db workspaceId) ids).drop
        (max 1 inBudget) ≠ [] := by
      intro none_
      rw [none_, filter_nil, append_nil] at splits
      exact more splits.symm
    have longer : max 1 inBudget <
        (going db (purgeWalkRefusal db workspaceId) ids).length := by
      by_contra short
      exact left (drop_eq_nil_of_le (Nat.not_lt.mp short))
    refine ⟨by rw [inTime, length_take]; omega, _, by rw [ends], ?_⟩
    intro id takes late
    rw [purgeable_eq holds enters] at takes
    have itGoes := (mem_filter.mp takes).1
    obtain ⟨asked, may, _⟩ := mem_goingPurge.mp itGoes
    refine ⟨mem_map.mpr ⟨id, asked, ?_⟩, ?_⟩
    · have outermost := (mem_going.mp itGoes).2
      have none_ : purgeWalkRefusal db workspaceId id = none := may
      rw [purgeOutcome, none_]
      simp only [outermost, idxOf?_eq_none_iff.mpr late]
    · intro other otherAsked otherMay above
      obtain ⟨chain, reached, _⟩ := standing_of_purgeRefusal otherMay
      rw [idsAbove_of_walk reached] at above
      have covered := coveredBy_of_going reached itGoes above
      have none_ : purgeWalkRefusal db workspaceId other = none := otherMay
      refine mem_map.mpr ⟨other, otherAsked, ?_⟩
      rw [purgeOutcome, none_]
      simp [covered, late]

end Batch

/--
A valid batch is its nodes' single writes: to the trash outer ones first, out
of it in any order until nothing changes, and forever in the order given, where
no node it comes to purge keeps its key from before a rotation.
-/
theorem batches_single
    (db : Database)
    (workspaceId writer inBudget now : Nat)
    (ids : List Uuid)
    (valid : batchValid ids = true) :
    Trashes db workspaceId writer now ids ∧
      Restores db workspaceId writer now ids ∧
      ((∀ id ∈ inTime db workspaceId inBudget ids, keepsKey db id = false) →
        ∃ done, PurgesEach db workspaceId writer inBudget now ids done) := by
  refine ⟨trashes valid, restores valid, fun unkeyed => ?_⟩
  by_cases holds : holdsWorkspace db writer workspaceId = true
  · by_cases enters : Enters db workspaceId writer now
    · exact ⟨_, purgesEach_of_free valid holds enters unkeyed⟩
    · exact ⟨[], purgesEach_of_barred valid fun both => enters both.2⟩
  · exact ⟨[], purgesEach_of_barred valid fun both => holds both.1⟩

section Selected

/-- A folder in a folder, the inner one in the trash, and a third beside them. -/
def selected : List Op :=
  [.openWorkspace 1 none 1000,
    .settleAccounts
      { Database.empty.accounts with workspaceKeys := [⟨7, 1⟩] },
    .allocateKeyEpochs 1 10 none 0,
    .createRoot 1 7 100 1 1 true 0,
    .createFolders 1 7 [⟨101, 100, 2, 1⟩, ⟨102, 101, 3, 2⟩, ⟨103, 100, 4, 1⟩]
      true 1,
    .trashNode 1 102 (some 7) 5]

/-- More nodes than a batch takes are refused together, and one by one are not. -/
theorem batches_overfull :
    ¬ ∀ (db : Database) (workspaceId writer inBudget now : Nat)
        (ids : List Uuid), ids.Nodup →
      Trashes db workspaceId writer now ids ∧
        Restores db workspaceId writer now ids ∧
        ∃ done, PurgesEach db workspaceId writer inBudget now ids done := by
  intro all
  have once : (List.range' 101 201).Nodup := nodup_range'
  have tooMany : batchValid (List.range' 101 201) = false := by
    rw [Bool.eq_false_iff]
    intro valid
    have few := length_of_batchValid valid
    rw [length_range'] at few
    exact absurd few (by decide)
  have enters : Enters (run .empty selected) 1 7 6 := by
    unfold Enters
    decide
  have asked : 101 ∈ List.range' 101 201 := by simp
  have goes : 101 ∈ going (run .empty selected)
      (trashBatchRefusal (run .empty selected) 1 7) (List.range' 101 201) := by
    refine mem_going.mpr ⟨mem_passing.mpr ⟨asked, by decide, by decide⟩, ?_⟩
    obtain ⟨chain, reached⟩ : ∃ chain, walk (run .empty selected) 101 = some chain :=
      Option.isSome_iff_exists.mp (by decide)
    have above : chain.idsAbove = [100] := by
      rw [← idsAbove_of_walk reached]
      decide
    rw [coveredBy_eq_none reached, above]
    intro other member passes
    rw [mem_singleton.mp member] at passes
    simpa using (mem_passing.mp passes).1
  exact not_trashes_of_invalid tooMany once enters goes
    (all (run .empty selected) 1 7 1 6 (List.range' 101 201) once).1

/-- The three folders, the inner one named first. -/
theorem batches_single_selected :
    Trashes (run .empty selected) 1 7 6 [102, 101, 103] ∧
      Restores (run .empty selected) 1 7 6 [102, 101, 103] ∧
      ∃ done, PurgesEach (run .empty selected) 1 7 1 6 [102, 101, 103] done := by
  obtain ⟨trashed, restored, purged⟩ :=
    batches_single (run .empty selected) 1 7 1 6 [102, 101, 103] (by decide)
  exact ⟨trashed, restored, purged (by decide)⟩

end Selected

end Drive

end HushOS
