import HushOS.Drive.Retiming
import HushOS.Toolkit.Keyset

namespace HushOS

open Toolkit List

namespace Drive

/-!
# Batches as single writes

A selection goes to the trash, and comes back, as its nodes would one by one: a
batch decides from walks taken before anything changes, and what it decides is
what single writes come to, whatever the nesting of what was asked for.
-/

/-- Nodes that change take the numbers after the counter's, the last its new one. -/
structure Numbered
    (db : Database)
    (workspaceId : Uuid)
    (changed : List Uuid)
    (after : Database) : Prop where
  once : changed.Nodup
  others : ∀ id, id ∉ changed → after.nodes.get? id = db.nodes.get? id
  taken : ∀ workspace, db.workspaces.get? workspaceId = some workspace →
    ∀ place id, changed[place]? = some id →
      ∃ row, after.nodes.get? id = some row ∧
        row.changeSeq = some (workspace.changeSeq + 1 + place)
  last : ∀ workspace, db.workspaces.get? workspaceId = some workspace →
    changed ≠ [] →
      ∃ later, after.workspaces.get? workspaceId = some later ∧
        later.changeSeq = workspace.changeSeq + changed.length

/-- Whether the lock lets a writer in. -/
def Enters (db : Database) (workspaceId writer now : Nat) : Prop :=
  (nextChangeSeq db workspaceId (some writer) false now).map (fun _ => ()) =
    .ok ()

section Locks

variable {db after : Database} {times : Uuid → Option Nat}
variable {workspaceId writer now : Nat}

theorem Retimed.enters (retimed : Retimed db times after) :
    Enters after workspaceId writer now ↔ Enters db workspaceId writer now := by
  rw [Enters, Enters, retimed.lock]

/-- A lock that is refused throws. -/
theorem thrown_of_lock
    {answer : Answer}
    (refused : nextChangeSeq db workspaceId (some writer) false now =
      .error answer) :
    ∃ reason, answer = .thrown reason := by
  unfold nextChangeSeq at refused
  cases found : db.workspaces.get? workspaceId with
  | none =>
    rw [found] at refused
    exact ⟨_, (Except.error.inj refused).symm⟩
  | some row =>
    rw [found] at refused
    simp only at refused
    rcases bind_eq_error.mp refused with stops | ⟨_, _, stops⟩
    · unfold requireStillWriter at stops
      cases inGroup : row.groupId with
      | none =>
        rw [inGroup] at stops
        cases stops
      | some groupId =>
        rw [inGroup] at stops
        simp only at stops
        rcases bind_eq_error.mp stops with held | ⟨_, _, ended⟩
        · exact ⟨_, (refuseIf_eq_error.mp held).2.symm⟩
        · exact ⟨_, (refuseIf_eq_error.mp ended).2.symm⟩
    · cases stops

theorem underLock_of_barred
    {body : Nat → Database → Body}
    (barred : ¬ Enters db workspaceId writer now) :
    ∃ reason, underLock db workspaceId (some writer) now body =
      (.thrown reason, db) := by
  unfold underLock underRosterLock
  unfold Enters at barred
  cases taken : nextChangeSeq db workspaceId (some writer) false now with
  | ok _ =>
    rw [taken] at barred
    exact absurd rfl barred
  | error answer =>
    obtain ⟨reason, rfl⟩ := thrown_of_lock taken
    exact ⟨reason, rfl⟩

/-- A writer who may enter runs the body at the next change number. -/
theorem underLock_of_enters
    {body : Nat → Database → Body}
    (enters : Enters db workspaceId writer now) :
    ∃ workspace, db.workspaces.get? workspaceId = some workspace ∧
      underLock db workspaceId (some writer) now body =
        match body (workspace.changeSeq + 1)
            (moreChangeSeqs db workspaceId 1) with
        | .error answer =>
          (answer, if answer.throws then db
            else moreChangeSeqs db workspaceId 1)
        | .ok result => result := by
  unfold underLock underRosterLock
  unfold Enters at enters
  cases taken : nextChangeSeq db workspaceId (some writer) false now with
  | error _ =>
    rw [taken] at enters
    cases enters
  | ok result =>
    obtain ⟨changeSeq, locked⟩ := result
    obtain ⟨rfl, workspace, found, rfl⟩ := nextChangeSeq_eq_ok taken
    exact ⟨workspace, found, rfl⟩

end Locks

section Marking

variable {db after : Database} {times : Uuid → Option Nat}

/-- Marking one node changes its trash time alone. -/
theorem Retimed.mark
    (retimed : Retimed db times after)
    (id changeSeq : Nat)
    (trashedAt : Option Nat) :
    Retimed db (fun other => if other = id then trashedAt else times other)
      (after.setNode id fun row =>
        { row with trashedAt := trashedAt, changeSeq := some changeSeq }) where
  nodes := by
    intro other
    have same := retimed.nodes other
    rw [Database.setNode, get?_updateById]
    by_cases itself : other = id
    · rw [if_pos itself, Option.map_map, if_pos itself]
      cases found : db.nodes.get? other with
      | none =>
        rw [found] at same
        rw [Option.map_eq_none_iff.mp same]
        rfl
      | some row =>
        rw [found] at same
        obtain ⟨later, isLater, equal⟩ := Option.map_eq_some_iff.mp same
        rw [isLater]
        simp only [Option.map_some, Function.comp_apply, Option.some.injEq]
        have shape : ({ later with
            trashedAt := trashedAt, changeSeq := some changeSeq } :
              Node).unnumbered = later.unnumbered.timed trashedAt := rfl
        rw [shape, equal]
        rfl
    · rw [if_neg itself, if_neg itself]
      exact same
  workspaces := retimed.workspaces
  shares := retimed.shares
  accounts := retimed.accounts

/-- Marking nodes changes their trash times alone. -/
theorem Retimed.markTrashed
    (retimed : Retimed db times after)
    (ids : List Uuid)
    (firstSeq : Nat)
    (trashedAt : Option Nat) :
    Retimed db (fun other => if other ∈ ids then trashedAt else times other)
      (markTrashed after ids firstSeq trashedAt) := by
  induction ids generalizing after times firstSeq with
  | nil => simpa [Drive.markTrashed] using retimed
  | cons id rest inductionHypothesis =>
    have marked := inductionHypothesis
      (retimed.mark id firstSeq trashedAt) (firstSeq + 1)
    have same : (fun other => if other ∈ id :: rest then trashedAt
          else times other) =
        fun other => if other ∈ rest then trashedAt
          else if other = id then trashedAt else times other := by
      funext other
      by_cases further : other ∈ rest
      · simp [further]
      · simp [further]
    rw [same]
    exact marked

theorem idxOf?_of_getElem?
    {ids : List Uuid}
    {id : Uuid}
    {place : Nat}
    (once : ids.Nodup)
    (at_ : ids[place]? = some id) :
    ids.idxOf? id = some place := by
  induction ids generalizing place with
  | nil => cases at_
  | cons first rest inductionHypothesis =>
    obtain ⟨fresh, restOnce⟩ := nodup_cons.mp once
    rw [idxOf?_cons]
    cases place with
    | zero =>
      rw [getElem?_cons_zero] at at_
      simp [Option.some.inj at_]
    | succ place =>
      rw [getElem?_cons_succ] at at_
      have differs : (first == id) = false := by
        simpa using fun equal : first = id =>
          fresh (equal ▸ mem_of_getElem? at_)
      rw [differs, inductionHypothesis restOnce at_]
      rfl

/-- Each marked node is numbered by its place among the ids. -/
theorem get?_markTrashed
    {ids : List Uuid}
    (once : ids.Nodup)
    (firstSeq : Nat)
    (trashedAt : Option Nat)
    (id : Uuid) :
    (markTrashed db ids firstSeq trashedAt).nodes.get? id =
      (db.nodes.get? id).map fun row =>
        match ids.idxOf? id with
        | none => row
        | some place =>
          { row with
            trashedAt := trashedAt
            changeSeq := some (firstSeq + place) } := by
  induction ids generalizing db firstSeq with
  | nil => simp [Drive.markTrashed]
  | cons first rest inductionHypothesis =>
    obtain ⟨fresh, restOnce⟩ := nodup_cons.mp once
    rw [Drive.markTrashed, inductionHypothesis restOnce, Database.setNode,
      get?_updateById]
    by_cases same : id = first
    · subst same
      have none_ : rest.idxOf? id = none := idxOf?_eq_none_iff.mpr fresh
      rw [if_pos rfl, none_, idxOf?_cons, Option.map_map]
      simp [Function.comp_def]
    · have differs : (first == id) = false := by
        simpa using fun equal => same equal.symm
      rw [if_neg same, idxOf?_cons, differs]
      cases rest.idxOf? id with
      | none => simp
      | some place =>
        simp only [Bool.false_eq_true, ↓reduceIte, Option.map_some,
          Nat.add_assoc, Nat.add_comm 1 place]

theorem workspaces_markTrashed
    (db : Database)
    (ids : List Uuid)
    (firstSeq : Nat)
    (trashedAt : Option Nat) :
    (markTrashed db ids firstSeq trashedAt).workspaces = db.workspaces := by
  induction ids generalizing db firstSeq with
  | nil => rfl
  | cons id rest inductionHypothesis =>
    rw [Drive.markTrashed, inductionHypothesis]
    rfl

theorem workspace_more
    {workspaceId count : Nat}
    {workspace : Workspace}
    (found : db.workspaces.get? workspaceId = some workspace) :
    (moreChangeSeqs db workspaceId count).workspaces.get? workspaceId =
      some { workspace with changeSeq := workspace.changeSeq + count } := by
  rw [moreChangeSeqs, Database.setWorkspace, get?_updateById, if_pos rfl, found]
  rfl

/-- Rows numbered by their place are numbered in order. -/
theorem numbered_of_rows
    {workspaceId : Nat}
    {workspace : Workspace}
    {ids : List Uuid}
    {change : Nat → Uuid → Node → Node}
    (found : db.workspaces.get? workspaceId = some workspace)
    (once : ids.Nodup)
    (there : ∀ id ∈ ids, (db.nodes.get? id).isSome = true)
    (rows : ∀ id, after.nodes.get? id = (db.nodes.get? id).map fun row =>
      match ids.idxOf? id with
      | none => row
      | some place => change place id row)
    (numbers : ∀ place id row, (change place id row).changeSeq =
      some (workspace.changeSeq + 1 + place))
    (counted : ids ≠ [] → ∃ later,
      after.workspaces.get? workspaceId = some later ∧
        later.changeSeq = workspace.changeSeq + ids.length) :
    Numbered db workspaceId ids after where
  once := once
  others := by
    intro id off
    rw [rows, idxOf?_eq_none_iff.mpr off]
    exact Option.map_id'
  taken := by
    intro again found' place id at_
    rw [found] at found'
    obtain rfl := Option.some.inj found'
    obtain ⟨row, isRow⟩ := Option.isSome_iff_exists.mp
      (there id (mem_of_getElem? at_))
    refine ⟨change place id row, ?_, numbers place id row⟩
    rw [rows, idxOf?_of_getElem? once at_, isRow]
    rfl
  last := by
    intro again found' some_
    rw [found] at found'
    obtain rfl := Option.some.inj found'
    exact counted some_

/-- Marking nodes numbers them in order. -/
theorem numbered_markTrashed
    {workspaceId : Nat}
    {workspace : Workspace}
    {ids : List Uuid}
    (found : db.workspaces.get? workspaceId = some workspace)
    (once : ids.Nodup)
    (there : ∀ id ∈ ids, (db.nodes.get? id).isSome = true)
    (trashedAt : Option Nat) :
    Numbered db workspaceId ids
      (markTrashed
        (moreChangeSeqs (moreChangeSeqs db workspaceId 1) workspaceId
          (ids.length - 1))
        ids (workspace.changeSeq + 1) trashedAt) := by
  refine @numbered_of_rows db _ workspaceId workspace ids
    (fun place _ row =>
      { row with
        trashedAt := trashedAt
        changeSeq := some (workspace.changeSeq + 1 + place) })
    found once there (get?_markTrashed once _ trashedAt)
    (fun _ _ _ => rfl) fun some_ => ?_
  refine ⟨_, by
    rw [workspaces_markTrashed]
    exact workspace_more (workspace_more found), ?_⟩
  have long := length_pos_iff.mpr some_
  simp only
  omega

theorem numbered_self (db : Database) (workspaceId : Uuid) :
    Numbered db workspaceId [] db where
  once := nodup_nil
  others := fun _ _ => rfl
  taken := by
    intro _ _ _ _ at_
    cases at_
  last := fun _ _ some_ => absurd rfl some_

end Marking

/-- `trashNode` as its route asks for it: access first, then the write. -/
def trashAsked
    (db : Database)
    (workspaceId writer now id : Nat) : Database :=
  match trashAccess db workspaceId writer (walk db id) with
  | some _ => db
  | none => (trashNode db workspaceId id (some writer) now).2

/-- Whether a batch lets a node pass: the writer may trash it, and it can be. -/
def MayTrash (db : Database) (workspaceId writer id : Nat) : Prop :=
  trashAccess db workspaceId writer (walk db id) = none ∧
    trashRefusal (walk db id) workspaceId = none

section Trash

variable {db after : Database} {times : Uuid → Option Nat}
variable {workspaceId writer now : Nat}

theorem trashRefusal_eq_none {chain : Walk} :
    trashRefusal (some chain) workspaceId = none ↔
      chain.here workspaceId = true ∧ chain.node.parentId ≠ none ∧
        chain.trashed = false := by
  unfold trashRefusal
  by_cases here : chain.here workspaceId = true
  · by_cases root : chain.node.parentId = none
    · simp [here, root]
    · by_cases trashed : chain.trashed = true
      · simp [here, root, trashed]
      · simp [here, root, trashed]
  · simp [here]

theorem trashRefusal_unnumbered (chain : Walk) :
    trashRefusal (some chain.unnumbered) workspaceId =
      trashRefusal (some chain) workspaceId :=
  rfl

/-- Trash times do not enter who may trash. -/
theorem Retimed.trashAccess
    (retimed : Retimed db times after)
    (id : Uuid) :
    trashAccess after workspaceId writer (walk after id) =
      trashAccess db workspaceId writer (walk db id) := by
  cases reached : walk db id with
  | none =>
    rw [(walk_retimed_eq_none retimed).mpr reached]
    rfl
  | some chain =>
    obtain ⟨later, isLater, equal⟩ := walk_retimed_eq_some retimed reached
    have here : later.here workspaceId = chain.here workspaceId :=
      show later.unnumbered.here workspaceId = _ by rw [equal]; rfl
    have inside : later.node.workspaceId = chain.node.workspaceId :=
      show later.unnumbered.node.workspaceId = _ by rw [equal]; rfl
    have itsId : later.id = chain.id :=
      show later.unnumbered.id = _ by rw [equal]; rfl
    have above : later.ancestors = chain.ancestors :=
      show later.unnumbered.ancestors = _ by rw [equal]; rfl
    rw [isLater]
    unfold Drive.trashAccess
    simp only [here, inside, sharedRole, itsId, above, retimed.shares,
      retimed.holdsWorkspace]

theorem Retimed.trashRefusal
    (retimed : Retimed db times after)
    (id : Uuid) :
    trashRefusal (walk after id) workspaceId =
      trashRefusal ((walk db id).map fun chain => chain.timed times)
        workspaceId := by
  rw [← walk_retimed retimed id]
  cases walk after id with
  | none => rfl
  | some chain => rfl

variable {chain : Walk} {id : Uuid} {ids : List Uuid}

theorem timed_timesOf
    (reached : walk db id = some chain) :
    chain.timed (timesOf db) = chain.unnumbered := by
  obtain ⟨later, isLater, equal⟩ :=
    walk_retimed_eq_some (retimed_self db) reached
  rw [reached] at isLater
  rw [← equal, Option.some.inj isLater]

/-- Trashing one node changes its trash time, or nothing. -/
theorem Retimed.trashAsked
    (retimed : Retimed db times after)
    (id : Uuid) :
    (Enters db workspaceId writer now →
      Drive.trashAccess db workspaceId writer (walk db id) = none →
      Drive.trashRefusal ((walk db id).map fun chain => chain.timed times)
        workspaceId = none →
      Retimed db (fun other => if other = id then some now else times other)
        (trashAsked after workspaceId writer now id)) ∧
    (¬ (Enters db workspaceId writer now ∧
        Drive.trashAccess db workspaceId writer (walk db id) = none ∧
        Drive.trashRefusal ((walk db id).map fun chain => chain.timed times)
          workspaceId = none) →
      Retimed db times (trashAsked after workspaceId writer now id)) := by
  unfold Drive.trashAsked
  rw [retimed.trashAccess]
  cases access : Drive.trashAccess db workspaceId writer (walk db id) with
  | some refusal =>
    refine ⟨?_, fun _ => retimed⟩
    intro _ none_
    cases none_
  | none =>
    simp only [true_and, forall_const]
    by_cases enters : Enters db workspaceId writer now
    · obtain ⟨workspace, _, written⟩ :=
        @underLock_of_enters after workspaceId writer now
          (fun changeSeq locked => do
            refuseWith (Drive.trashRefusal (walk locked id) workspaceId)
            .ok (.ok, Drive.markTrashed locked [id] changeSeq (some now)))
          (retimed.enters.mpr enters)
      have locked := retimed.more workspaceId 1
      rw [trashNode, written, locked.trashRefusal]
      cases refusal : Drive.trashRefusal ((walk db id).map fun chain =>
          chain.timed times) workspaceId with
      | none =>
        refine ⟨fun _ _ => ?_, fun refused => absurd ⟨enters, rfl⟩ refused⟩
        have marked := locked.markTrashed [id] (workspace.changeSeq + 1)
          (some now)
        simpa [refuseWith] using marked
      | some outcome =>
        refine ⟨?_, fun _ => ?_⟩
        · intro _ none_
          cases none_
        have left : ∀ answer : Answer,
            Retimed db times
              (if answer.throws then after
                else moreChangeSeqs after workspaceId 1) := by
          intro answer
          split
          · exact retimed
          · exact locked
        simpa [refuseWith] using left outcome.answer
    · obtain ⟨reason, written⟩ :=
        @underLock_of_barred after workspaceId writer now
          (fun changeSeq locked => do
            refuseWith (Drive.trashRefusal (walk locked id) workspaceId)
            .ok (.ok, Drive.markTrashed locked [id] changeSeq (some now)))
          fun again => enters (retimed.enters.mp again)
      refine ⟨fun entered => absurd entered enters, fun _ => ?_⟩
      rw [trashNode, written]
      exact retimed

theorem trashBatchRefusal_eq_none {id : Uuid} :
    trashBatchRefusal db workspaceId writer id = none ↔
      MayTrash db workspaceId writer id := by
  unfold trashBatchRefusal MayTrash
  dsimp only
  by_cases holds : holdsWorkspace db writer workspaceId = true
  · rw [if_pos holds]
    refine ⟨fun passes => ⟨?_, passes⟩, And.right⟩
    cases reached : walk db id with
    | none =>
      rw [reached] at passes
      cases passes
    | some chain =>
      rw [reached] at passes
      have here := (trashRefusal_eq_none.mp passes).1
      have inside : chain.node.workspaceId = workspaceId := by
        simp only [Walk.here, Bool.and_eq_true, decide_eq_true_eq] at here
        exact here.1
      simp [Drive.trashAccess, here, inside, holds]
  · rw [if_neg holds, Option.or_eq_none_iff]

theorem mem_passing {ids : List Uuid} {id : Uuid} :
    id ∈ passing (trashBatchRefusal db workspaceId writer) ids ↔
      id ∈ ids ∧ MayTrash db workspaceId writer id := by
  rw [passing, mem_filter, Option.isNone_iff_eq_none,
    trashBatchRefusal_eq_none]

theorem coveredBy_eq_none
    {passed : List Uuid}
    (reached : walk db id = some chain) :
    coveredBy db passed id = none ↔ ∀ other ∈ chain.idsAbove, other ∉ passed := by
  simp [coveredBy, reached, Walk.idsAbove]

/-- A covering node passed, stands above and is not covered itself. -/
theorem coveredBy_eq_some
    {passed : List Uuid}
    {id by_ : Uuid}
    (reached : walk db id = some chain)
    (covered : coveredBy db passed id = some by_) :
    by_ ∈ passed ∧ by_ ∈ chain.idsAbove ∧ coveredBy db passed by_ = none := by
  simp only [coveredBy, reached, Option.bind_some, Option.map_eq_some_iff] at covered
  obtain ⟨ancestor, found, rfl⟩ := covered
  obtain ⟨passes, before, rest, splits, none_⟩ :=
    find?_eq_some_iff_append.mp found
  have ids : chain.idsAbove =
      before.map Ancestor.id ++ ancestor.id :: rest.map Ancestor.id := by
    rw [Walk.idsAbove, splits, map_append, map_cons]
  obtain ⟨upper, isUpper, above⟩ := walk_of_above reached ids
  refine ⟨by simpa using passes, by rw [ids]; simp, ?_⟩
  rw [coveredBy_eq_none isUpper, above]
  intro other member
  obtain ⟨one, isOne, rfl⟩ := mem_map.mp member
  simpa using none_ one isOne

theorem mem_going {refusal : Uuid → Option Outcome} {ids : List Uuid} {id : Uuid} :
    id ∈ going db refusal ids ↔
      id ∈ passing refusal ids ∧
        coveredBy db (passing refusal ids) id = none := by
  rw [going, mem_filter, Option.isNone_iff_eq_none]

/-- The trash times a batch leaves. -/
def trashTimes
    (db : Database)
    (workspaceId writer now : Nat)
    (ids moved : List Uuid)
    (id : Uuid) : Option Nat :=
  if id ∈ going db (trashBatchRefusal db workspaceId writer) ids ∧ id ∈ moved then
    some now
  else
    timesOf db id

theorem timedRefusal_eq_none
    {times : Uuid → Option Nat}
    (reached : walk db id = some chain) :
    Drive.trashRefusal (some (chain.timed times)) workspaceId = none ↔
      chain.here workspaceId = true ∧ chain.node.parentId ≠ none ∧
        ∀ other ∈ id :: chain.idsAbove, times other = none := by
  have itsId := (walked_of_walk reached).itsId
  have trashed : (chain.timed times).trashed = false ↔
      ∀ other ∈ id :: chain.idsAbove, times other = none := by
    rw [← itsId]
    simp [Walk.timed]
  rw [trashRefusal_eq_none, trashed]
  rfl

theorem trashRefusal_eq_timed
    (reached : walk db id = some chain) :
    Drive.trashRefusal (some chain) workspaceId =
      Drive.trashRefusal (some (chain.timed (timesOf db))) workspaceId := by
  rw [timed_timesOf reached, trashRefusal_unnumbered]

/-- A node goes in its turn exactly when it goes in the batch. -/
theorem goes_iff_mem_going
    {ids moved rest : List Uuid}
    {id : Uuid}
    (perm : (moved ++ id :: rest).Perm ids)
    (outer : (moved ++ id :: rest).Pairwise fun earlier later =>
      later ∉ idsAbove db earlier)
    (once : ids.Nodup) :
    (Drive.trashAccess db workspaceId writer (walk db id) = none ∧
        Drive.trashRefusal ((walk db id).map fun chain =>
          chain.timed (trashTimes db workspaceId writer now ids moved))
          workspaceId = none) ↔
      id ∈ going db (trashBatchRefusal db workspaceId writer) ids := by
  have asked : id ∈ ids := perm.mem_iff.mp (by simp)
  cases reached : walk db id with
  | none =>
    refine ⟨fun accepted => ?_, fun goes => ?_⟩
    · cases accepted.2
    · obtain ⟨_, _, may⟩ := mem_passing.mp (mem_going.mp goes).1
      rw [reached] at may
      cases may
  | some chain =>
    rw [Option.map_some, timedRefusal_eq_none reached]
    constructor
    · rintro ⟨access, here, inner, clear⟩
      -- What is clear now was clear before the batch, so the batch lets it pass.
      have may : MayTrash db workspaceId writer id := by
        refine ⟨reached ▸ access, ?_⟩
        rw [reached, trashRefusal_eq_timed reached, timedRefusal_eq_none reached]
        refine ⟨here, inner, fun other on => ?_⟩
        have none_ := clear other on
        unfold trashTimes at none_
        split at none_
        · cases none_
        · exact none_
      refine mem_going.mpr ⟨mem_passing.mpr ⟨asked, may⟩, ?_⟩
      cases covered : coveredBy db
          (passing (trashBatchRefusal db workspaceId writer) ids) id with
      | none => rfl
      | some by_ =>
        -- What covers it goes before it, and would stand over it in the trash.
        obtain ⟨passes, above, outermost⟩ := coveredBy_eq_some reached covered
        have goes := mem_going.mpr ⟨passes, outermost⟩
        have apart : by_ ≠ id := by
          rintro rfl
          exact not_mem_idsAbove by_ (idsAbove_of_walk reached ▸ above)
        have inOrder := perm.mem_iff.mpr (mem_passing.mp passes).1
        rcases mem_append.mp inOrder with earlier | later
        · have none_ := clear by_ (mem_cons_of_mem id above)
          rw [trashTimes, if_pos ⟨goes, earlier⟩] at none_
          cases none_
        · rcases mem_cons.mp later with same | later
          · exact absurd same apart
          · have inside :=
              (pairwise_cons.mp (pairwise_append.mp outer).2.1).1
                by_ later
            exact absurd (idsAbove_of_walk reached ▸ above) inside
    · intro goes
      obtain ⟨passes, outermost⟩ := mem_going.mp goes
      obtain ⟨_, access, may⟩ := mem_passing.mp passes
      rw [reached, trashRefusal_eq_timed reached,
        timedRefusal_eq_none reached] at may
      obtain ⟨here, inner, clear⟩ := may
      refine ⟨reached ▸ access, here, inner, fun other on => ?_⟩
      rw [trashTimes, if_neg ?_]
      · exact clear other on
      · rintro ⟨otherGoes, earlier⟩
        rcases mem_cons.mp on with rfl | above
        · have fresh := (nodup_append.mp (perm.nodup_iff.mpr once)).2.2
          exact fresh other earlier other (by simp) rfl
        · exact (coveredBy_eq_none reached).mp outermost other above
            (mem_going.mp otherGoes).1

/-- Single calls from the outside in trash what the batch does. -/
theorem retimed_trashEach
    (enters : Enters db workspaceId writer now)
    {ids order : List Uuid}
    (perm : order.Perm ids)
    (outer : order.Pairwise fun earlier later => later ∉ idsAbove db earlier)
    (once : ids.Nodup) :
    Retimed db (trashTimes db workspaceId writer now ids order)
      (order.foldl
        (fun db id => Drive.trashAsked db workspaceId writer now id) db) := by
  have runs : ∀ rest moved (after : Database), moved ++ rest = order →
      Retimed db (trashTimes db workspaceId writer now ids moved) after →
      Retimed db (trashTimes db workspaceId writer now ids order)
        (rest.foldl
          (fun db id => Drive.trashAsked db workspaceId writer now id)
          after) := by
    intro rest
    induction rest with
    | nil =>
      intro moved after whole retimed
      rw [append_nil] at whole
      exact whole ▸ retimed
    | cons id rest inductionHypothesis =>
      intro moved after whole retimed
      refine inductionHypothesis (moved ++ [id]) _ (by simp [whole]) ?_
      obtain ⟨moves, stays⟩ :=
        @Retimed.trashAsked db after _ workspaceId writer now retimed id
      have times : trashTimes db workspaceId writer now ids (moved ++ [id]) =
          fun other =>
            if other = id ∧
                id ∈ going db (trashBatchRefusal db workspaceId writer) ids then
              some now
            else
              trashTimes db workspaceId writer now ids moved other := by
        funext other
        unfold trashTimes
        by_cases same : other = id
        · subst same
          by_cases goes : other ∈
              going db (trashBatchRefusal db workspaceId writer) ids
          · simp [goes]
          · simp [goes]
        · simp [same]
      rw [times]
      have goes := @goes_iff_mem_going db workspaceId writer now ids moved rest
        id (whole ▸ perm) (whole ▸ outer) once
      by_cases member :
          id ∈ going db (trashBatchRefusal db workspaceId writer) ids
      · obtain ⟨access, refusal⟩ := goes.mpr member
        simpa only [member, and_true] using moves enters access refusal
      · simpa only [member, and_false, if_false] using
          stays fun accepted => member (goes.mp accepted.2)
  exact runs order [] db rfl (by
    have same : trashTimes db workspaceId writer now ids [] = timesOf db := by
      funext id
      simp [trashTimes]
    rw [same]
    exact retimed_self db)

theorem nodup_of_batchValid
    (valid : batchValid ids = true) :
    ids.Nodup := by
  simp only [batchValid, Bool.and_eq_true, decide_eq_true_eq] at valid
  exact valid.2

theorem length_of_batchValid
    (valid : batchValid ids = true) :
    ids.length ≤ MAX_NODE_BATCH := by
  simp only [batchValid, Bool.and_eq_true, decide_eq_true_eq] at valid
  exact valid.1.2

theorem nodup_going
    {refusal : Uuid → Option Outcome}
    (valid : batchValid ids = true) :
    (going db refusal ids).Nodup :=
  ((nodup_of_batchValid valid).filter _).filter _

theorem going_eq_nil
    (barred : ∀ id ∈ ids, ¬ MayTrash db workspaceId writer id) :
    going db (trashBatchRefusal db workspaceId writer) ids = [] := by
  rw [eq_nil_iff_forall_not_mem]
  intro id goes
  obtain ⟨asked, may⟩ := mem_passing.mp (mem_going.mp goes).1
  exact barred id asked may

theorem trashTimes_of_empty
    {ids moved : List Uuid}
    (none_ : going db (trashBatchRefusal db workspaceId writer) ids = []) :
    trashTimes db workspaceId writer now ids moved = timesOf db := by
  funext id
  simp [trashTimes, none_]

theorem trashBatchRefusal_more (count : Nat) :
    trashBatchRefusal (moreChangeSeqs db workspaceId count) workspaceId writer =
      trashBatchRefusal db workspaceId writer := by
  funext id
  have locked := (retimed_self db).more workspaceId count
  have access : Drive.trashAccess (moreChangeSeqs db workspaceId count)
        workspaceId writer (walk db id) =
      Drive.trashAccess db workspaceId writer (walk db id) :=
    locked.trashAccess id
  unfold trashBatchRefusal
  rw [locked.holdsWorkspace]
  exact congrArg (fun refused => if holdsWorkspace db writer workspaceId then
      Drive.trashRefusal (walk db id) workspaceId
    else refused.or (Drive.trashRefusal (walk db id) workspaceId)) access

/-- How a batch to the trash ends. -/
inductive TrashEnds
    (db : Database)
    (workspaceId writer now : Nat)
    (ids : List Uuid) : Answer × Database → Prop
  /-- Nothing of it is theirs to trash: the lock is not taken. -/
  | refused
      (each : List (Uuid × Outcome))
      (barred : ∀ id ∈ ids, ¬ MayTrash db workspaceId writer id) :
      TrashEnds db workspaceId writer now ids (.outcomes each, db)
  /-- The lock does not let the writer in. -/
  | locked
      (reason : Thrown)
      (barred : ¬ Enters db workspaceId writer now) :
      TrashEnds db workspaceId writer now ids (.thrown reason, db)
  /-- What goes is moved, each outcome as it was decided before. -/
  | moved
      (workspace : Workspace)
      (enters : Enters db workspaceId writer now)
      (found : db.workspaces.get? workspaceId = some workspace) :
      TrashEnds db workspaceId writer now ids
        (.outcomes (ids.map fun id =>
          (id, trashOutcome db (trashBatchRefusal db workspaceId writer)
            (passing (trashBatchRefusal db workspaceId writer) ids)
            (going db (trashBatchRefusal db workspaceId writer) ids)
            (workspace.changeSeq + 1) id)),
          markTrashed
            (moreChangeSeqs (moreChangeSeqs db workspaceId 1) workspaceId
              ((going db (trashBatchRefusal db workspaceId writer)
                ids).length - 1))
            (going db (trashBatchRefusal db workspaceId writer) ids)
            (workspace.changeSeq + 1) (some now))

/-- A trash batch ends in its outcomes or in a refused lock. -/
theorem trashEnds
    {ids : List Uuid}
    (valid : batchValid ids = true) :
    TrashEnds db workspaceId writer now ids
      (trashNodes db workspaceId ids writer now) := by
  unfold trashNodes
  rw [valid, Bool.not_true, if_neg Bool.false_ne_true]
  dsimp only
  split
  · next early =>
      simp only [Bool.and_eq_true, Bool.not_eq_true', all_eq_true] at early
      refine .refused _ fun id asked may => ?_
      have refused := early.2 id asked
      rw [may.1] at refused
      cases refused
  · by_cases enters : Enters db workspaceId writer now
    · obtain ⟨workspace, found, written⟩ :=
        @underLock_of_enters db workspaceId writer now
          (fun firstSeq locked => do
            let refusal := trashBatchRefusal locked workspaceId writer
            let gone := going locked refusal ids
            .ok
              (.outcomes (ids.map fun id =>
                (id, trashOutcome locked refusal (passing refusal ids) gone
                  firstSeq id)),
                Drive.markTrashed
                  (moreChangeSeqs locked workspaceId (gone.length - 1)) gone
                  firstSeq (some now)))
          enters
      rw [written]
      dsimp only
      rw [trashBatchRefusal_more]
      exact .moved workspace enters found
    · obtain ⟨reason, written⟩ :=
        @underLock_of_barred db workspaceId writer now _ enters
      rw [written]
      exact .locked reason enters

/-- The batch trashes its nodes, or nothing where it may not enter. -/
theorem retimed_trashNodes
    {ids : List Uuid}
    (valid : batchValid ids = true) :
    (Enters db workspaceId writer now →
      Retimed db (trashTimes db workspaceId writer now ids ids)
        (trashNodes db workspaceId ids writer now).2) ∧
    (¬ Enters db workspaceId writer now →
      (trashNodes db workspaceId ids writer now).2 = db) := by
  have ends := @trashEnds db workspaceId writer now ids valid
  generalize trashNodes db workspaceId ids writer now = result at ends ⊢
  cases ends with
  | refused each barred =>
    refine ⟨fun _ => ?_, fun _ => rfl⟩
    rw [trashTimes_of_empty (going_eq_nil barred)]
    exact retimed_self db
  | locked reason barred => exact ⟨fun enters => absurd enters barred, fun _ => rfl⟩
  | moved workspace enters found =>
    refine ⟨fun _ => ?_, fun barred => absurd enters barred⟩
    have moved := (((retimed_self db).more workspaceId 1).more workspaceId
      ((going db (trashBatchRefusal db workspaceId writer)
        ids).length - 1)).markTrashed
      (going db (trashBatchRefusal db workspaceId writer) ids)
      (workspace.changeSeq + 1) (some now)
    have same : trashTimes db workspaceId writer now ids ids = fun other =>
        if other ∈ going db (trashBatchRefusal db workspaceId writer) ids then
          some now
        else
          timesOf db other := by
      funext other
      unfold trashTimes
      refine if_congr ⟨And.left, fun goes => ⟨goes, ?_⟩⟩ rfl rfl
      exact (mem_passing.mp (mem_going.mp goes).1).1
    rw [same]
    exact moved

theorem trashAsked_of_barred
    (barred : ¬ Enters db workspaceId writer now)
    (order : List Uuid) :
    order.foldl (fun db id => Drive.trashAsked db workspaceId writer now id)
      db = db := by
  induction order with
  | nil => rfl
  | cons id rest inductionHypothesis =>
    have first : Drive.trashAsked db workspaceId writer now id = db := by
      unfold Drive.trashAsked
      split
      · rfl
      · obtain ⟨reason, written⟩ :=
          @underLock_of_barred db workspaceId writer now _ barred
        rw [trashNode, written]
    rw [foldl_cons, first, inductionHypothesis]

theorem exists_outerFirst (db : Database) (ids : List Uuid) :
    ∃ order : List Uuid, order.Perm ids ∧
      order.Pairwise fun earlier later => later ∉ idsAbove db earlier := by
  refine ⟨Keyset.inOrder (fun id => (idsAbove db id).length) ids,
    Keyset.inOrder_perm, Keyset.rising_inOrder.imp ?_⟩
  intro earlier later rising above
  cases reached : walk db earlier with
  | none => simp [idsAbove, reached] at above
  | some chain =>
    rw [idsAbove_of_walk reached] at above rising
    obtain ⟨before, rest, splits⟩ := append_of_mem above
    obtain ⟨upper, isUpper, shorter⟩ := walk_of_above reached splits
    rw [idsAbove_of_walk isUpper, shorter, splits] at rising
    simp at rising

/-- Tables of the same tree: rows and walks differ in change numbers alone. -/
structure SameTree (first second : Database) : Prop where
  rows : ∀ id, (first.nodes.get? id).map Node.unnumbered =
    (second.nodes.get? id).map Node.unnumbered
  walks : ∀ id, (walk first id).map Walk.unnumbered =
    (walk second id).map Walk.unnumbered

theorem Retimed.sameTree
    {other : Database}
    (retimed : Retimed db times after)
    (again : Retimed db times other) :
    SameTree after other where
  rows := retimed.alike again
  walks id := (walk_retimed retimed id).trans (walk_retimed again id).symm

/-- The batch leaves the tree that single calls outside in leave. -/
theorem trashNodes_sameTree
    {ids order : List Uuid}
    (valid : batchValid ids = true)
    (perm : order.Perm ids)
    (outer : order.Pairwise fun earlier later => later ∉ idsAbove db earlier) :
    SameTree (trashNodes db workspaceId ids writer now).2
      (order.foldl
        (fun db id => Drive.trashAsked db workspaceId writer now id) db) := by
  have once := nodup_of_batchValid valid
  obtain ⟨moves, stays⟩ := @retimed_trashNodes db workspaceId writer now ids valid
  by_cases enters : Enters db workspaceId writer now
  · have each := retimed_trashEach enters perm outer once
    have same : trashTimes db workspaceId writer now ids order =
        trashTimes db workspaceId writer now ids ids := by
      funext id
      simp only [trashTimes, perm.mem_iff]
    exact (moves enters).sameTree (same ▸ each)
  · rw [stays enters, trashAsked_of_barred enters]
    exact ⟨fun _ => rfl, fun _ => rfl⟩

theorem isSome_of_going
    (goes : id ∈ going db (trashBatchRefusal db workspaceId writer) ids) :
    (db.nodes.get? id).isSome = true := by
  obtain ⟨_, access, _⟩ := mem_passing.mp (mem_going.mp goes).1
  cases reached : walk db id with
  | none =>
    rw [reached] at access
    cases access
  | some chain => rw [(walked_of_walk reached).found, Option.isSome_some]

theorem numbered_trashNodes
    (valid : batchValid ids = true) :
    ∃ changed, Numbered db workspaceId changed
      (trashNodes db workspaceId ids writer now).2 := by
  have ends := @trashEnds db workspaceId writer now ids valid
  generalize trashNodes db workspaceId ids writer now = result at ends ⊢
  cases ends with
  | refused _ _ => exact ⟨[], numbered_self db workspaceId⟩
  | locked _ _ => exact ⟨[], numbered_self db workspaceId⟩
  | moved workspace enters found =>
    exact ⟨_, numbered_markTrashed found (nodup_going valid)
      (fun _ goes => isSome_of_going goes) (some now)⟩

/-- A node inside another asked for is answered as covered by it. -/
theorem covered_trashNodes
    {each : List (Uuid × Outcome)}
    {id other : Uuid}
    (valid : batchValid ids = true)
    (answered : (trashNodes db workspaceId ids writer now).1 = .outcomes each)
    (asked : id ∈ ids)
    (may : MayTrash db workspaceId writer id)
    (otherAsked : other ∈ ids)
    (otherMay : MayTrash db workspaceId writer other)
    (inside : other ∈ idsAbove db id) :
    ∃ by_, (id, .covered by_) ∈ each ∧ by_ ∈ idsAbove db id ∧
      timesOf (trashNodes db workspaceId ids writer now).2 by_ = some now ∧
      (trashNodes db workspaceId ids writer now).2.nodes.get? id =
        db.nodes.get? id := by
  have moves := (@retimed_trashNodes db workspaceId writer now ids valid).1
  have ends := @trashEnds db workspaceId writer now ids valid
  generalize trashNodes db workspaceId ids writer now = result at *
  cases ends with
  | refused _ barred => exact absurd may (barred id asked)
  | locked _ _ => cases answered
  | moved workspace enters found =>
    obtain rfl := Answer.outcomes.inj answered
    have passes := mem_passing.mpr ⟨asked, may⟩
    have none_ := trashBatchRefusal_eq_none.mpr may
    cases reached : walk db id with
    | none =>
      rw [idsAbove, reached] at inside
      cases inside
    | some chain =>
      rw [idsAbove_of_walk reached] at inside ⊢
      cases covered : coveredBy db
          (passing (trashBatchRefusal db workspaceId writer) ids) id with
      | none =>
        exact absurd (mem_passing.mpr ⟨otherAsked, otherMay⟩)
          ((coveredBy_eq_none reached).mp covered other inside)
      | some by_ =>
        obtain ⟨byPasses, above, outermost⟩ :=
          coveredBy_eq_some reached covered
        have goes := mem_going.mpr ⟨byPasses, outermost⟩
        obtain ⟨row, isRow⟩ := Option.isSome_iff_exists.mp
          (isSome_of_going goes)
        refine ⟨by_, mem_map.mpr ⟨id, asked, ?_⟩, above, ?_, ?_⟩
        · rw [trashOutcome, none_]
          simp only [covered]
        · rw [(moves enters).timesOf isRow, trashTimes,
            if_pos ⟨goes, (mem_passing.mp byPasses).1⟩]
        · have numbered := @numbered_markTrashed db workspaceId workspace
            (going db (trashBatchRefusal db workspaceId writer) ids) found
            (nodup_going valid) (fun _ goes => isSome_of_going goes)
            (some now)
          refine numbered.others id fun staysOut => ?_
          have free := (mem_going.mp staysOut).2
          rw [covered] at free
          cases free

/-- A batch to the trash is its nodes' single writes, outer nodes first. -/
structure Trashes
    (db : Database)
    (workspaceId writer now : Nat)
    (ids : List Uuid) : Prop where
  ordered : ∃ order : List Uuid, order.Perm ids ∧
    order.Pairwise fun earlier later => later ∉ idsAbove db earlier
  same : ∀ order : List Uuid, order.Perm ids →
    (order.Pairwise fun earlier later => later ∉ idsAbove db earlier) →
    SameTree (trashNodes db workspaceId ids writer now).2
      (order.foldl
        (fun db id => Drive.trashAsked db workspaceId writer now id) db)
  covered : ∀ each,
    (trashNodes db workspaceId ids writer now).1 = .outcomes each →
    ∀ id ∈ ids, MayTrash db workspaceId writer id →
    ∀ other ∈ ids, MayTrash db workspaceId writer other →
      other ∈ idsAbove db id →
    ∃ by_, (id, .covered by_) ∈ each ∧ by_ ∈ idsAbove db id ∧
      timesOf (trashNodes db workspaceId ids writer now).2 by_ = some now ∧
      (trashNodes db workspaceId ids writer now).2.nodes.get? id =
        db.nodes.get? id
  numbered : ∃ changed, Numbered db workspaceId changed
    (trashNodes db workspaceId ids writer now).2

theorem trashes
    (valid : batchValid ids = true) :
    Trashes db workspaceId writer now ids where
  ordered := exists_outerFirst db ids
  same _ perm outer := trashNodes_sameTree valid perm outer
  covered _ answered _ asked may _ otherAsked otherMay inside :=
    covered_trashNodes valid answered asked may otherAsked otherMay inside
  numbered := numbered_trashNodes valid

/-- An invalid batch trashes nothing that could go. -/
theorem not_trashes_of_invalid
    (invalid : batchValid ids = false)
    (once : ids.Nodup)
    (enters : Enters db workspaceId writer now)
    (goes : id ∈ going db (trashBatchRefusal db workspaceId writer) ids) :
    ¬ Trashes db workspaceId writer now ids := by
  intro alike
  obtain ⟨order, perm, outer⟩ := alike.ordered
  have stays : (trashNodes db workspaceId ids writer now).2 = db := by
    unfold trashNodes
    rw [invalid, Bool.not_false, if_pos rfl]
  have rows := (alike.same order perm outer).rows id
  have each := retimed_trashEach enters perm outer once
  obtain ⟨asked, may⟩ := mem_passing.mp (mem_going.mp goes).1
  cases reached : walk db id with
  | none =>
    have refusal := may.2
    rw [reached] at refusal
    cases refusal
  | some chain =>
    have found := (walked_of_walk reached).found
    have clear : timesOf db id = none := by
      have refusal := may.2
      rw [reached, trashRefusal_eq_timed reached,
        timedRefusal_eq_none reached] at refusal
      exact refusal.2.2 id mem_cons_self
    rw [stays, each.nodes id, found] at rows
    have times := congrArg Node.trashedAt (Option.some.inj rows)
    change chain.node.trashedAt =
      trashTimes db workspaceId writer now ids order id at times
    rw [trashTimes, if_pos ⟨goes, perm.mem_iff.mpr asked⟩] at times
    rw [timesOf, found] at clear
    cases times.symm.trans clear

end Trash

end Drive

end HushOS
