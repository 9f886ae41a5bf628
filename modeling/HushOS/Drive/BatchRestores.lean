import HushOS.Drive.Batches
import HushOS.Toolkit.Freed

namespace HushOS

open Toolkit List

namespace Drive

/-!
# Batches out of the trash

A node comes back in place once every folder of the trash above it is back.
Single calls of that, in any order and as long as one changes something, end
with one set of nodes back: the least closed under the rule, which a batch's
passes reach too.
-/

/-- Whether a node of a request may come back once all above it are back. -/
def Waits
    (db : Database)
    (workspaceId : Uuid)
    (ids : List Uuid)
    (id : Uuid) : Prop :=
  id ∈ ids ∧ restoreRefusal (walk db id) workspaceId = none

/-- The trash times with some nodes back. -/
def restoreTimes (db : Database) (back : List Uuid) (id : Uuid) : Option Nat :=
  if id ∈ back then none else timesOf db id

/-- Calls of `restoreNode`, each in place, one after the other. -/
def restoreCalls
    (db : Database)
    (workspaceId writer now : Nat)
    (calls : List Uuid) : Database :=
  calls.foldl
    (fun db id => (restoreNode db workspaceId (some writer) id none now).2) db

/-- Whether no call for a node of a request changes the tree any more. -/
def Settled
    (db : Database)
    (workspaceId writer now : Nat)
    (ids : List Uuid) : Prop :=
  ∀ id ∈ ids,
    SameTree (restoreNode db workspaceId (some writer) id none now).2 db

section Passes

variable {above : Uuid → List Uuid} {waits : Uuid → Prop}

/-- One pass brings nodes back in turn and loses none. -/
theorem inTurn_restorePass
    {waiting back : List Uuid}
    (each : ∀ id ∈ waiting, waits id)
    (turns : Freed.InTurn waits above back) :
    Freed.InTurn waits above (restorePass above waiting back).2 ∧
      ((restorePass above waiting back).1 ++
        (restorePass above waiting back).2).Perm (waiting ++ back) := by
  induction waiting generalizing back with
  | nil => exact ⟨turns, List.Perm.refl _⟩
  | cons id rest inductionHypothesis =>
    have itself := each id (by simp)
    have others : ∀ other ∈ rest, waits other := fun other member =>
      each other (mem_cons_of_mem id member)
    unfold restorePass
    split
    · next free =>
        have overBack : ∀ other ∈ above id, other ∈ back := by
          simpa [all_eq_true] using free
        obtain ⟨turned, perm⟩ :=
          inductionHypothesis others (turns.next itself overBack)
        refine ⟨turned, perm.trans ?_⟩
        rw [← append_assoc]
        exact (perm_append_singleton id (rest ++ back)).trans
          (List.Perm.refl _)
    · obtain ⟨turned, perm⟩ := inductionHypothesis others turns
      exact ⟨turned, perm.cons id⟩

theorem sublist_restorePass {waiting back : List Uuid} :
    (restorePass above waiting back).1.Sublist waiting := by
  induction waiting generalizing back with
  | nil => exact List.Sublist.refl []
  | cons id rest inductionHypothesis =>
    unfold restorePass
    split
    · exact inductionHypothesis.cons id
    · exact inductionHypothesis.cons_cons id

/-- A pass that brings nothing back leaves none that could come. -/
theorem settled_restorePass
    {waiting back : List Uuid}
    (same : (restorePass above waiting back).1.length = waiting.length) :
    (restorePass above waiting back).2 = back ∧
      ∀ id ∈ waiting, ¬ ∀ other ∈ above id, other ∈ back := by
  induction waiting generalizing back with
  | nil =>
    refine ⟨rfl, fun id member => ?_⟩
    cases member
  | cons id rest inductionHypothesis =>
    unfold restorePass at same ⊢
    split at same
    · have fewer := (@sublist_restorePass above rest (back ++ [id])).length_le
      rw [same, length_cons] at fewer
      omega
    · next held =>
        rw [if_neg held]
        obtain ⟨stays, none_⟩ := inductionHypothesis (Nat.succ.inj same)
        refine ⟨stays, fun other member => ?_⟩
        rcases mem_cons.mp member with rfl | later
        · simpa [all_eq_true] using held
        · exact none_ other later

/-- Passes enough bring back every node that can come. -/
theorem inTurn_restorePasses
    {passes : Nat}
    {waiting back : List Uuid}
    (enough : waiting.length ≤ passes)
    (each : ∀ id ∈ waiting, waits id)
    (turns : Freed.InTurn waits above back) :
    Freed.InTurn waits above (restorePasses above passes waiting back).2 ∧
      ((restorePasses above passes waiting back).1 ++
        (restorePasses above passes waiting back).2).Perm (waiting ++ back) ∧
      ∀ id ∈ (restorePasses above passes waiting back).1,
        ¬ ∀ other ∈ above id,
          other ∈ (restorePasses above passes waiting back).2 := by
  induction passes generalizing waiting back with
  | zero =>
    obtain rfl := length_eq_zero_iff.mp (Nat.le_zero.mp enough)
    refine ⟨turns, List.Perm.refl _, fun id member => ?_⟩
    cases member
  | succ passes inductionHypothesis =>
    obtain ⟨turned, perm⟩ := inTurn_restorePass each turns
    unfold restorePasses
    dsimp only
    split
    · next same =>
        obtain ⟨stays, none_⟩ := settled_restorePass same
        refine ⟨turned, perm, fun id member => ?_⟩
        rw [stays]
        exact none_ id (sublist_restorePass.mem member)
    · next fewer =>
        have shorter := (@sublist_restorePass above waiting back).length_le
        have fits : (restorePass above waiting back).1.length ≤ passes := by
          omega
        obtain ⟨turnedAll, permAll, settled⟩ := inductionHypothesis fits
          (fun id member => each id (sublist_restorePass.mem member)) turned
        exact ⟨turnedAll, permAll.trans perm, settled⟩

end Passes

section Calls

variable {db after : Database} {times : Uuid → Option Nat}
variable {workspaceId writer now : Nat} {ids : List Uuid}

variable {id : Uuid}

theorem trashedAbove_of_walk
    {chain : Walk}
    (reached : walk db id = some chain) :
    trashedAbove db id =
      chain.idsAbove.filter fun other => (timesOf db other).isSome := by
  rw [trashedAbove, reached]
  exact (congrArg Walk.trashedAncestors (timed_timesOf reached)).symm

theorem restoreRefusal_eq_none {chain : Walk} :
    restoreRefusal (some chain) workspaceId = none ↔
      chain.here workspaceId = true ∧ chain.node.trashedAt ≠ none ∧
        chain.node.removedAt = none := by
  unfold restoreRefusal
  by_cases here : chain.here workspaceId = true
  · by_cases trashed : chain.node.trashedAt = none
    · simp [here, trashed]
    · by_cases removed : chain.node.removedAt = none
      · simp [here, trashed, removed]
      · simp [here, trashed, removed, Option.isSome_iff_ne_none]
  · simp [here]

theorem Retimed.restoreRefusal
    (retimed : Retimed db times after)
    (id : Uuid) :
    restoreRefusal (walk after id) workspaceId =
      restoreRefusal ((walk db id).map fun chain => chain.timed times)
        workspaceId := by
  rw [← walk_retimed retimed id]
  cases walk after id with
  | none => rfl
  | some chain => rfl

theorem Retimed.trashedAncestors
    (retimed : Retimed db times after)
    {chain later : Walk}
    (reached : walk db id = some chain)
    (reachedLater : walk after id = some later) :
    later.trashedAncestors =
      chain.idsAbove.filter fun other => (times other).isSome := by
  obtain ⟨same, isSame, equal⟩ := walk_retimed_eq_some retimed reached
  rw [reachedLater] at isSame
  obtain rfl := Option.some.inj isSame
  exact congrArg Walk.trashedAncestors equal

/-- A node is refused as before, or because it is back already. -/
theorem restoreRefusal_restoreTimes {back : List Uuid} {id : Uuid} :
    Drive.restoreRefusal ((walk db id).map fun chain =>
        chain.timed (restoreTimes db back)) workspaceId = none ↔
      Drive.restoreRefusal (walk db id) workspaceId = none ∧ id ∉ back := by
  cases reached : walk db id with
  | none => simp [Drive.restoreRefusal]
  | some chain =>
    have walked := walked_of_walk reached
    have itsTime : timesOf db id = chain.node.trashedAt := by
      rw [timesOf, walked.found]
      rfl
    have time : (chain.timed (restoreTimes db back)).node.trashedAt =
        restoreTimes db back id := by
      rw [← walked.itsId]
      rfl
    rw [Option.map_some, restoreRefusal_eq_none, restoreRefusal_eq_none, time,
      restoreTimes, itsTime]
    change chain.here workspaceId = true ∧ _ ∧ chain.node.removedAt = none ↔ _
    by_cases returned : id ∈ back
    · simp [returned]
    · simp [returned]

theorem trashedAncestors_restoreTimes
    {back : List Uuid}
    {id : Uuid}
    {chain : Walk}
    (reached : walk db id = some chain) :
    (chain.idsAbove.filter fun other =>
        (restoreTimes db back other).isSome) = [] ↔
      ∀ other ∈ trashedAbove db id, other ∈ back := by
  rw [trashedAbove_of_walk reached, filter_eq_nil_iff]
  simp only [mem_filter, restoreTimes, and_imp]
  refine forall₂_congr fun other _ => ?_
  by_cases returned : other ∈ back
  · simp [returned]
  · simp [returned]

theorem restoreTimes_append (back : List Uuid) (id : Uuid) :
    restoreTimes db (back ++ [id]) = fun other =>
      if other ∈ [id] then none else restoreTimes db back other := by
  funext other
  by_cases same : other = id
  · simp [restoreTimes, same]
  · simp [restoreTimes, same]

/-- Restoring one node brings back that node and no other. -/
theorem Retimed.restoreNode
    {back : List Uuid}
    (retimed : Retimed db (restoreTimes db back) after)
    (id : Uuid) :
    (Enters db workspaceId writer now →
      Drive.restoreRefusal (walk db id) workspaceId = none → id ∉ back →
      (∀ other ∈ trashedAbove db id, other ∈ back) →
      Retimed db (restoreTimes db (back ++ [id]))
        (Drive.restoreNode after workspaceId (some writer) id none now).2) ∧
    (¬ (Enters db workspaceId writer now ∧
        (Drive.restoreRefusal (walk db id) workspaceId = none ∧ id ∉ back) ∧
        ∀ other ∈ trashedAbove db id, other ∈ back) →
      Retimed db (restoreTimes db back)
        (Drive.restoreNode after workspaceId (some writer) id none now).2) := by
  have locked := retimed.more workspaceId 1
  have left : ∀ answer : Answer,
      Retimed db (restoreTimes db back)
        (if answer.throws then after
          else moreChangeSeqs after workspaceId 1) := by
    intro answer
    split
    · exact retimed
    · exact locked
  by_cases enters : Enters db workspaceId writer now
  · unfold Drive.restoreNode
    obtain ⟨workspace, _, written⟩ :=
      @underLock_of_enters after workspaceId writer now
        (fun changeSeq locked => do
          refuseWith (Drive.restoreRefusal (walk locked id) workspaceId)
          let chain ← orRefuse (walk locked id) .notFound
          if chain.trashedAncestors = [] then
            .ok (.ok, Drive.markTrashed locked [id] changeSeq none)
          else do
            let parentKeyEpoch ← orRefuse none .parentTrashed
            let root ← restoreRoot locked workspaceId chain parentKeyEpoch
            let restored := locked.setNode id fun row =>
              { row with
                trashedAt := none
                changeSeq := some changeSeq
                parentId := some chain.rootId
                parentKeyEpoch := parentKeyEpoch }
            .ok (.ok,
              raiseHeightBounds restored
                [ancestorOf (root.id, root.node)] chain.node.heightBound))
        (retimed.enters.mpr enters)
    rw [written, locked.restoreRefusal]
    cases refusal : Drive.restoreRefusal ((walk db id).map fun chain =>
        chain.timed (restoreTimes db back)) workspaceId with
    | some outcome =>
      have refused : ¬ (Drive.restoreRefusal (walk db id) workspaceId = none ∧
          id ∉ back) := by
        rw [← restoreRefusal_restoreTimes, refusal]
        intro none_
        cases none_
      refine ⟨fun _ waits fresh _ => absurd ⟨waits, fresh⟩ refused, fun _ => ?_⟩
      simpa [refuseWith] using left outcome.answer
    | none =>
      obtain ⟨chain, reached⟩ : ∃ chain, walk db id = some chain := by
        cases reached : walk db id with
        | none =>
          rw [reached] at refusal
          cases refusal
        | some chain => exact ⟨chain, rfl⟩
      obtain ⟨later, reachedLater, _⟩ := walk_retimed_eq_some locked reached
      have trashed := locked.trashedAncestors reached reachedLater
      have clear := @trashedAncestors_restoreTimes db back id chain reached
      rw [reachedLater]
      simp only [refuseWith, orRefuse, trashed, clear, bind, Except.bind]
      by_cases free : ∀ other ∈ trashedAbove db id, other ∈ back
      · have marked := locked.markTrashed [id] (workspace.changeSeq + 1) none
        rw [if_pos free]
        refine ⟨fun _ _ _ _ => ?_, fun held => ?_⟩
        · rw [restoreTimes_append]
          exact marked
        · exact absurd
            ⟨enters, restoreRefusal_restoreTimes.mp refusal, free⟩ held
      · rw [if_neg free]
        exact ⟨fun _ _ _ all => absurd all free, fun _ => left .parentTrashed⟩
  · obtain ⟨reason, written⟩ :=
      @underLock_of_barred after workspaceId writer now _
        fun again => enters (retimed.enters.mp again)
    refine ⟨fun entered => absurd entered enters, fun _ => ?_⟩
    rw [Drive.restoreNode, written]
    exact retimed

theorem restoreNode_of_barred
    (barred : ¬ Enters db workspaceId writer now)
    (id : Uuid) :
    (Drive.restoreNode db workspaceId (some writer) id none now).2 = db := by
  obtain ⟨reason, written⟩ :=
    @underLock_of_barred db workspaceId writer now _ barred
  rw [Drive.restoreNode, written]

/-- One restore call brings nodes back in turn. -/
theorem inTurn_restoreNode
    {back : List Uuid}
    (asked : id ∈ ids)
    (enters : Enters db workspaceId writer now)
    (turns : Freed.InTurn (Waits db workspaceId ids) (trashedAbove db) back)
    (retimed : Retimed db (restoreTimes db back) after) :
    ∃ more, Freed.InTurn (Waits db workspaceId ids) (trashedAbove db) more ∧
      Retimed db (restoreTimes db more)
        (Drive.restoreNode after workspaceId (some writer) id none now).2 := by
  obtain ⟨comes, stays⟩ :=
    @Retimed.restoreNode db after workspaceId writer now back retimed id
  by_cases waits : Drive.restoreRefusal (walk db id) workspaceId = none ∧ id ∉ back
  · by_cases free : ∀ other ∈ trashedAbove db id, other ∈ back
    · exact ⟨back ++ [id], turns.next ⟨asked, waits.1⟩ free,
        comes enters waits.1 waits.2 free⟩
    · exact ⟨back, turns, stays fun all => free all.2.2⟩
  · exact ⟨back, turns, stays fun all => waits all.2.1⟩

/-- Restore calls bring nodes back in turn, in any order. -/
theorem inTurn_restoreCalls
    {calls : List Uuid}
    (asked : ∀ id ∈ calls, id ∈ ids)
    (enters : Enters db workspaceId writer now) :
    ∃ back, Freed.InTurn (Waits db workspaceId ids) (trashedAbove db) back ∧
      Retimed db (restoreTimes db back)
        (restoreCalls db workspaceId writer now calls) := by
  have runs : ∀ (calls back : List Uuid) (after : Database),
      (∀ id ∈ calls, id ∈ ids) →
      Freed.InTurn (Waits db workspaceId ids) (trashedAbove db) back →
      Retimed db (restoreTimes db back) after →
      ∃ more, Freed.InTurn (Waits db workspaceId ids) (trashedAbove db) more ∧
        Retimed db (restoreTimes db more)
          (restoreCalls after workspaceId writer now calls) := by
    intro calls
    induction calls with
    | nil => exact fun back after _ turns retimed => ⟨back, turns, retimed⟩
    | cons id rest inductionHypothesis =>
      intro back after asked turns retimed
      obtain ⟨more, turned, called⟩ :=
        inTurn_restoreNode (asked id (by simp)) enters turns retimed
      exact inductionHypothesis more _
        (fun other member => asked other (mem_cons_of_mem id member))
        turned called
  exact runs calls [] db asked .none (retimed_self db)

theorem restoreCalls_of_barred
    (barred : ¬ Enters db workspaceId writer now)
    (calls : List Uuid) :
    restoreCalls db workspaceId writer now calls = db := by
  induction calls with
  | nil => rfl
  | cons id rest inductionHypothesis =>
    rw [restoreCalls, foldl_cons, restoreNode_of_barred barred]
    exact inductionHypothesis

/-- Once settled, a waiting node that is free has come back. -/
theorem mem_of_settled
    {back : List Uuid}
    (enters : Enters db workspaceId writer now)
    (retimed : Retimed db (restoreTimes db back) after)
    (settled : Settled after workspaceId writer now ids)
    (waits : Waits db workspaceId ids id)
    (free : ∀ other ∈ trashedAbove db id, other ∈ back) :
    id ∈ back := by
  by_contra fresh
  obtain ⟨asked, may⟩ := waits
  have called := (@Retimed.restoreNode db after workspaceId writer now back
    retimed id).1 enters may fresh free
  cases reached : walk db id with
  | none =>
    rw [reached] at may
    cases may
  | some chain =>
    have found := (walked_of_walk reached).found
    have inTrash : timesOf db id ≠ none := by
      rw [reached, restoreRefusal_eq_none] at may
      rw [timesOf, found]
      exact may.2.1
    have rows := (settled id asked).rows id
    rw [called.nodes id, retimed.nodes id, found] at rows
    have times := congrArg Node.trashedAt (Option.some.inj rows)
    change restoreTimes db (back ++ [id]) id = restoreTimes db back id at times
    rw [restoreTimes, restoreTimes, if_neg fresh, if_pos (by simp)] at times
    exact inTrash times.symm

end Calls

section Batch

variable {db after : Database}
variable {workspaceId writer now : Nat} {ids : List Uuid}

/-- What a batch takes back comes in turn, each once, until none is free. -/
structure ComesBack
    (db : Database)
    (workspaceId : Uuid)
    (ids back : List Uuid) : Prop where
  turns : Freed.InTurn (Waits db workspaceId ids) (trashedAbove db) back
  once : back.Nodup
  settled : ∀ id, Waits db workspaceId ids id →
    (∀ other ∈ trashedAbove db id, other ∈ back) → id ∈ back

/-- The batch brings back every node that can come. -/
theorem comesBack
    (once : ids.Nodup) :
    ComesBack db workspaceId ids (comingBack db workspaceId ids) := by
  have waits : ∀ id ∈ ids.filter fun id =>
        (restoreRefusal (walk db id) workspaceId).isNone,
      Waits db workspaceId ids id := by
    intro id member
    rw [mem_filter, Option.isNone_iff_eq_none] at member
    exact member
  obtain ⟨turns, perm, settled⟩ :=
    @inTurn_restorePasses (trashedAbove db) (Waits db workspaceId ids) _ _ []
      (Nat.le_refl _) waits .none
  rw [append_nil] at perm
  refine
    { turns := turns
      once := ?_
      settled := ?_ }
  · exact (nodup_append.mp (perm.nodup_iff.mpr (once.filter _))).2.1
  · intro id waiting free
    have listed := perm.mem_iff.mpr (mem_filter.mpr
      ⟨waiting.1, Option.isNone_iff_eq_none.mpr waiting.2⟩)
    rcases mem_append.mp listed with held | back
    · exact absurd free (settled id held)
    · exact back

theorem ComesBack.mem_iff
    {back : List Uuid}
    (comes : ComesBack db workspaceId ids back)
    {id : Uuid} :
    id ∈ back ↔ Freed (Waits db workspaceId ids) (trashedAbove db) id :=
  Freed.iff_of_settled comes.turns comes.settled

theorem restoreTimes_congr
    {back more : List Uuid}
    (same : ∀ id, id ∈ back ↔ id ∈ more) :
    restoreTimes db back = restoreTimes db more := by
  funext id
  simp only [restoreTimes, same]

/-- The batch marks the nodes coming back, numbered in order. -/
theorem restoreNodes_of_enters
    (valid : batchValid ids = true)
    (enters : Enters db workspaceId writer now) :
    ∃ workspace, db.workspaces.get? workspaceId = some workspace ∧
      (restoreNodes db workspaceId ids writer now).2 =
        markTrashed
          (moreChangeSeqs (moreChangeSeqs db workspaceId 1) workspaceId
            ((comingBack db workspaceId ids).length - 1))
          (comingBack db workspaceId ids) (workspace.changeSeq + 1) none := by
  obtain ⟨workspace, found, written⟩ :=
    @underLock_of_enters db workspaceId writer now
      (fun firstSeq locked => do
        let back := comingBack locked workspaceId ids
        .ok
          (.outcomes (ids.map fun id =>
            (id, restoreOutcome locked workspaceId back firstSeq id)),
            markTrashed
              (moreChangeSeqs locked workspaceId (back.length - 1)) back
              firstSeq none))
      enters
  refine ⟨workspace, found, ?_⟩
  unfold restoreNodes
  rw [valid, Bool.not_true, if_neg Bool.false_ne_true, written]
  rfl

theorem restoreNodes_of_barred
    (valid : batchValid ids = true)
    (barred : ¬ Enters db workspaceId writer now) :
    (restoreNodes db workspaceId ids writer now).2 = db := by
  obtain ⟨reason, written⟩ :=
    @underLock_of_barred db workspaceId writer now _ barred
  unfold restoreNodes
  rw [valid, Bool.not_true, if_neg Bool.false_ne_true, written]

theorem retimed_restoreNodes
    (valid : batchValid ids = true)
    (enters : Enters db workspaceId writer now) :
    Retimed db (restoreTimes db (comingBack db workspaceId ids))
      (restoreNodes db workspaceId ids writer now).2 := by
  obtain ⟨workspace, _, written⟩ := restoreNodes_of_enters valid enters
  rw [written]
  exact (((retimed_self db).more workspaceId 1).more workspaceId
    ((comingBack db workspaceId ids).length - 1)).markTrashed
    (comingBack db workspaceId ids) (workspace.changeSeq + 1) none

/-- The batch leaves the tree that single calls settle at. -/
theorem restoreNodes_sameTree
    {calls : List Uuid}
    (valid : batchValid ids = true)
    (asked : ∀ id ∈ calls, id ∈ ids)
    (settled : Settled (restoreCalls db workspaceId writer now calls)
      workspaceId writer now ids) :
    SameTree (restoreNodes db workspaceId ids writer now).2
      (restoreCalls db workspaceId writer now calls) := by
  by_cases enters : Enters db workspaceId writer now
  · obtain ⟨back, turns, called⟩ := inTurn_restoreCalls asked enters
    have comes := @comesBack db workspaceId ids (nodup_of_batchValid valid)
    have freed : ∀ id, id ∈ back ↔
        Freed (Waits db workspaceId ids) (trashedAbove db) id := fun id =>
      Freed.iff_of_settled turns fun id waits free =>
        mem_of_settled enters called settled waits free
    have times := @restoreTimes_congr db (comingBack db workspaceId ids) back
      fun id => comes.mem_iff.trans (freed id).symm
    exact (retimed_restoreNodes valid enters).sameTree (times ▸ called)
  · rw [restoreNodes_of_barred valid enters, restoreCalls_of_barred enters]
    exact ⟨fun _ => rfl, fun _ => rfl⟩

theorem retimed_restoreCalls
    {back : List Uuid}
    (enters : Enters db workspaceId writer now)
    (turns : Freed.InTurn (Waits db workspaceId ids) (trashedAbove db) back)
    (once : back.Nodup) :
    Retimed db (restoreTimes db back)
      (restoreCalls db workspaceId writer now back) := by
  induction turns with
  | none => exact retimed_self db
  | @next before id earlier waits free inductionHypothesis =>
    obtain ⟨onceBefore, _, apart⟩ := nodup_append.mp once
    have fresh : id ∉ before := fun member => apart id member id (by simp) rfl
    have called := inductionHypothesis onceBefore
    rw [restoreCalls, foldl_append]
    exact (called.restoreNode id).1 enters waits.2 fresh free

/-- Single calls can be repeated until they settle. -/
theorem exists_settled (once : ids.Nodup) :
    ∃ calls : List Uuid, (∀ id ∈ calls, id ∈ ids) ∧
      Settled (restoreCalls db workspaceId writer now calls)
        workspaceId writer now ids := by
  by_cases enters : Enters db workspaceId writer now
  · have comes := @comesBack db workspaceId ids once
    have called := @retimed_restoreCalls db workspaceId writer now ids _ enters
      comes.turns comes.once
    refine ⟨comingBack db workspaceId ids,
      fun id member => (comes.mem_iff.mp member).waited.1, fun id asked => ?_⟩
    refine ((called.restoreNode id).2 fun all => ?_).sameTree called
    exact all.2.1.2 (comes.settled id ⟨asked, all.2.1.1⟩ all.2.2)
  · refine ⟨[], fun id member => ?_, fun id _ => ?_⟩
    · cases member
    · change SameTree
        (restoreNode db workspaceId (some writer) id none now).2 db
      rw [restoreNode_of_barred enters]
      exact ⟨fun _ => rfl, fun _ => rfl⟩

theorem restoreNodes_perm
    {again : List Uuid}
    (valid : batchValid ids = true)
    (perm : again.Perm ids) :
    SameTree (restoreNodes db workspaceId again writer now).2
      (restoreNodes db workspaceId ids writer now).2 := by
  have validAgain : batchValid again = true := by
    simpa only [batchValid, perm.length_eq, perm.nodup_iff] using valid
  obtain ⟨calls, asked, settled⟩ :=
    @exists_settled db workspaceId writer now ids (nodup_of_batchValid valid)
  have first := restoreNodes_sameTree valid asked settled
  have second := restoreNodes_sameTree validAgain
    (fun id member => perm.mem_iff.mpr (asked id member))
    (fun id member => settled id (perm.mem_iff.mp member))
  exact
    { rows := fun id => (second.rows id).trans (first.rows id).symm
      walks := fun id => (second.walks id).trans (first.walks id).symm }

/-- Each node is numbered after the ones above it. -/
theorem numbered_restoreNodes (valid : batchValid ids = true) :
    ∃ changed, Numbered db workspaceId changed
        (restoreNodes db workspaceId ids writer now).2 ∧
      ∀ first id rest, changed = first ++ id :: rest →
        ∀ other ∈ trashedAbove db id, other ∈ first := by
  by_cases enters : Enters db workspaceId writer now
  · have comes := @comesBack db workspaceId ids (nodup_of_batchValid valid)
    obtain ⟨workspace, found, written⟩ := restoreNodes_of_enters valid enters
    refine ⟨comingBack db workspaceId ids, ?_,
      fun _ _ _ splits => comes.turns.before splits⟩
    rw [written]
    refine numbered_markTrashed found comes.once (fun id member => ?_) none
    have may := (comes.mem_iff.mp member).waited.2
    cases reached : walk db id with
    | none =>
      rw [reached] at may
      cases may
    | some chain => rw [(walked_of_walk reached).found, Option.isSome_some]
  · rw [restoreNodes_of_barred valid enters]
    refine ⟨[], numbered_self db workspaceId, fun first id rest splits => ?_⟩
    simp at splits

/-- A batch out of the trash is single calls until none changes anything. -/
structure Restores
    (db : Database)
    (workspaceId writer now : Nat)
    (ids : List Uuid) : Prop where
  settles : ∃ calls : List Uuid, (∀ id ∈ calls, id ∈ ids) ∧
    Settled (restoreCalls db workspaceId writer now calls)
      workspaceId writer now ids
  same : ∀ calls : List Uuid, (∀ id ∈ calls, id ∈ ids) →
    Settled (restoreCalls db workspaceId writer now calls)
      workspaceId writer now ids →
    SameTree (restoreNodes db workspaceId ids writer now).2
      (restoreCalls db workspaceId writer now calls)
  orders : ∀ again : List Uuid, again.Perm ids →
    SameTree (restoreNodes db workspaceId again writer now).2
      (restoreNodes db workspaceId ids writer now).2
  numbered : ∃ changed, Numbered db workspaceId changed
      (restoreNodes db workspaceId ids writer now).2 ∧
    ∀ first id rest, changed = first ++ id :: rest →
      ∀ other ∈ trashedAbove db id, other ∈ first

theorem restores (valid : batchValid ids = true) :
    Restores db workspaceId writer now ids where
  settles := exists_settled (nodup_of_batchValid valid)
  same _ asked settled := restoreNodes_sameTree valid asked settled
  orders _ perm := restoreNodes_perm valid perm
  numbered := numbered_restoreNodes valid

end Batch

end Drive

end HushOS
