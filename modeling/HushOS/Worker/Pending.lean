import HushOS.Worker.Moves

namespace HushOS

open Toolkit List OrderedMap

namespace Worker

/-!
# Keys pending in a walk

A batch that is dropped leaves every key as it was, and one that is committed
makes each fresh key its node's own (`Restores`, `Settles`).  Between a walk's
check and its pending key there is what it awaits, and another walk of the node
may have come as far (`Alone`).
-/

variable {V : Vault}

namespace Memory

variable (memory : Memory V)

/-- A held key as it reads. -/
def reading (pool : Pool) (place : String) : Option HeldKey :=
  (memory.poolKeys pool).get? place

/-- A pending key as it reads. -/
def pendingReading (place : String) : Option PendingKey :=
  memory.ledger.pendingNodeKeys.get? place

theorem reading_eq (pool : Pool) (place : String) :
    memory.reading pool place =
      ((memory.pools pool).get? place).map (HeldCell.read memory.cells) :=
  get?_mapValues _ _ _

theorem pendingReading_eq (place : String) :
    memory.pendingReading place =
      (memory.pendingNodeKeys.get? place).map
        (PendingCells.read memory.cells) :=
  get?_mapValues _ _ _

end Memory

namespace Frame

variable {before after : Memory V} {touched : Site → Prop}

theorem reading
    (frame : Frame before after touched)
    {pool : Pool}
    {place : String}
    (spared : ¬ touched (.held pool place)) :
    after.reading pool place = before.reading pool place := by
  rw [Memory.reading_eq, Memory.reading_eq, frame.pools spared]
  refine Option.map_congr fun held isHeld => ?_
  have same := @Frame.contents _ _ _ _ frame _ false held.cell
    spared (by simp [Memory.at_, Option.mem_def.mp isHeld])
  simp only [HeldCell.read, same]

theorem pendingReading
    (frame : Frame before after touched)
    {place : String}
    (spared : ¬ touched (.pending place)) :
    after.pendingReading place = before.pendingReading place := by
  rw [Memory.pendingReading_eq, Memory.pendingReading_eq,
    frame.pending spared]
  refine Option.map_congr fun pending isPending => ?_
  have isFresh := @Frame.contents _ _ _ _ frame _ true pending.fresh
    spared (by simp [Memory.at_, Option.mem_def.mp isPending])
  have isOld := @Frame.contents _ _ _ _ frame _ false pending.old
    spared (by simp [Memory.at_, Option.mem_def.mp isPending])
  simp only [PendingCells.read, isFresh, isOld]

end Frame

namespace Memory

variable {memory : Memory V}

theorem reading_hold
    (pool : Pool)
    (place : String)
    (held : HeldCell)
    (loose : memory.Loose held.cell) :
    (memory.hold pool place held).reading pool place =
      some (held.read memory.cells) := by
  have same : (memory.hold pool place held).cells held.cell =
      memory.cells held.cell :=
    cells_zero_of_loose loose fun other member =>
      ⟨_, placed_of_cellsAt member⟩
  rw [reading_eq]
  simp [hold, get?_set, HeldCell.read]
  exact same

/-- A node whose pending key became its own. -/
structure Committed
    (memory : Memory V)
    (workspaceId place : String)
    (pending : PendingKey) : Prop where
  taken : memory.pendingReading place = none
  current : memory.reading (memory.nodePool workspaceId) place =
    some { key := pending.fresh, epoch := pending.epoch }
  previous : memory.reading (memory.prevPool workspaceId) place =
    some { key := pending.old, epoch := pending.oldEpoch, own := true }
  rooted : memory.rest.lineage.get? place = some pending.rootedAt

theorem workspaceKeys_commitOne (workspaceId nodeId : String) :
    (commitOne workspaceId memory nodeId).rest.workspaceKeys =
      memory.rest.workspaceKeys := by
  unfold commitOne
  split <;> rfl

theorem lineage_commitOne
    {workspaceId nodeId place : String}
    (other : slot workspaceId nodeId ≠ place) :
    (commitOne workspaceId memory nodeId).rest.lineage.get? place =
      memory.rest.lineage.get? place := by
  unfold commitOne
  split
  · rfl
  · exact (get?_set _ _ _ _).trans (if_neg other.symm)

variable {pending : PendingKey}

/-- A pending key that is committed is held as the node's key. -/
theorem Owned.commitOne_pending
    (owned : memory.Owned)
    {workspaceId nodeId : String}
    (isPending : memory.pendingReading (slot workspaceId nodeId) =
      some pending) :
    (Memory.commitOne workspaceId memory nodeId).Committed workspaceId
      (slot workspaceId nodeId) pending := by
  rw [pendingReading_eq, Option.map_eq_some_iff] at isPending
  obtain ⟨cells, isPending, rfl⟩ := isPending
  have isFresh : memory.at_ (.pending (slot workspaceId nodeId), true) =
      some cells.fresh := by
    simp [at_, isPending]
  have isOld : memory.at_ (.pending (slot workspaceId nodeId), false) =
      some cells.old := by
    simp [at_, isPending]
  have differ : cells.old ≠ cells.fresh := by
    intro same
    rw [same] at isOld
    cases owned.alone isOld isFresh
  have taken := owned.takePending (slot workspaceId nodeId)
  have looseOld := owned.loose_takePending isOld
  have looseFresh := owned.loose_takePending isFresh
  have second := taken.hold (memory.prevPool workspaceId)
    (slot workspaceId nodeId)
    { cell := cells.old, epoch := cells.oldEpoch, own := true } looseOld
  have looseThen := loose_hold looseFresh (memory.prevPool workspaceId)
    (slot workspaceId nodeId)
    { cell := cells.old, epoch := cells.oldEpoch, own := true } differ
  have sameFresh : ((memory.takePending (slot workspaceId nodeId)).hold
      (memory.prevPool workspaceId) (slot workspaceId nodeId)
      { cell := cells.old, epoch := cells.oldEpoch, own := true }).cells
        cells.fresh = memory.cells cells.fresh :=
    cells_zero_of_loose looseFresh fun other member =>
      ⟨_, placed_of_cellsAt member⟩
  have apart : memory.prevPool workspaceId ≠ memory.nodePool workspaceId := by
    unfold prevPool nodePool
    split <;> simp
  unfold Memory.commitOne
  rw [isPending]
  refine ⟨?_, ?_, ?_, ?_⟩
  · rw [pendingReading_eq]
    exact congrArg (Option.map _)
      ((get?_erase _ _ _).trans (if_pos rfl))
  · refine (reading_hold (memory.nodePool workspaceId)
      (slot workspaceId nodeId)
      { cell := cells.fresh, epoch := cells.epoch } looseThen).trans ?_
    simp only [HeldCell.read, sameFresh, PendingCells.read]
  · have frame := Frame.hold second (memory.nodePool workspaceId)
      (slot workspaceId nodeId) { cell := cells.fresh, epoch := cells.epoch }
    have spared : ¬ Site.held (memory.prevPool workspaceId)
        (slot workspaceId nodeId) = .held (memory.nodePool workspaceId)
          (slot workspaceId nodeId) :=
      fun same => apart (Site.held.inj same).1
    exact (frame.reading spared).trans (reading_hold _ _ _ looseOld)
  · exact (get?_set _ _ _ _).trans (if_pos rfl)

/-- A committed key stays so through later commits. -/
theorem Committed.commitOne
    {workspaceId place : String}
    (committed : memory.Committed workspaceId place pending)
    (owned : memory.Owned)
    (nodeId : String) :
    (Memory.commitOne workspaceId memory nodeId).Committed workspaceId place
      pending := by
  by_cases same : slot workspaceId nodeId = place
  · have taken := committed.taken
    rw [pendingReading_eq, Option.map_eq_none_iff, ← same] at taken
    have unchanged : Memory.commitOne workspaceId memory nodeId = memory := by
      unfold Memory.commitOne
      rw [taken]
    rw [unchanged]
    exact committed
  · have frame := (owned.commitOne workspaceId nodeId).2
    have elsewhere : ¬ some place = some (slot workspaceId nodeId) :=
      fun isPlace => same (Option.some.inj isPlace).symm
    have keys := @workspaceKeys_commitOne V memory workspaceId nodeId
    refine ⟨?_, ?_, ?_, ?_⟩
    · rw [frame.pendingReading elsewhere]
      exact committed.taken
    · rw [nodePool, keys, frame.reading elsewhere]
      exact committed.current
    · rw [prevPool, keys, frame.reading elsewhere]
      exact committed.previous
    · rw [lineage_commitOne same]
      exact committed.rooted

/-- Every named pending key is committed. -/
theorem Owned.commitPending
    (owned : memory.Owned)
    {workspaceId place : String}
    {nodeIds : List String}
    (isPending : memory.pendingReading place = some pending)
    (named : ∃ nodeId ∈ nodeIds, slot workspaceId nodeId = place) :
    (memory.commitPending workspaceId nodeIds).Committed workspaceId place
      pending := by
  have stays : ∀ (rest : List String) {memory : Memory V}, memory.Owned →
      memory.Committed workspaceId place pending →
        (rest.foldl (Memory.commitOne workspaceId) memory).Committed
          workspaceId place pending := by
    intro rest
    induction rest with
    | nil =>
      exact fun _ committed => committed
    | cons nodeId rest inductionHypothesis =>
      exact fun owned committed => inductionHypothesis
        (owned.commitOne workspaceId nodeId).1
        (committed.commitOne owned nodeId)
  unfold Memory.commitPending
  induction nodeIds generalizing memory with
  | nil =>
    obtain ⟨_, member, _⟩ := named
    cases member
  | cons nodeId rest inductionHypothesis =>
    have next := owned.commitOne workspaceId nodeId
    by_cases same : slot workspaceId nodeId = place
    · subst same
      exact stays rest next.1 (owned.commitOne_pending isPending)
    · have elsewhere : ¬ some place = some (slot workspaceId nodeId) :=
        fun isPlace => same (Option.some.inj isPlace).symm
      refine inductionHypothesis next.1 ?_ ?_
      · rw [next.2.pendingReading elsewhere]
        exact isPending
      · obtain ⟨other, member, isPlace⟩ := named
        rcases mem_cons.mp member with rfl | later
        · exact absurd isPlace same
        · exact ⟨other, later, isPlace⟩

/-- A node's key a re-wrap opened and holds, and what it is rooted at. -/
structure NewHold where
  pool : Pool
  isNode : pool = .ownNodeKeys ∨ pool = .guestNodeKeys
  place : String
  held : HeldKey
  rootedAt : Option Nat

theorem nodePool_cases (memory : Memory V) (workspaceId : String) :
    memory.nodePool workspaceId = .ownNodeKeys ∨
      memory.nodePool workspaceId = .guestNodeKeys := by
  unfold nodePool
  split
  · exact .inl rfl
  · exact .inr rfl

/-- What a move holds anew: the key of a node re-wrapped, held by none before. -/
def newHold (memory : Memory V) : Move V → Option NewHold
  | .wrapped id true =>
    match memory.calls.get? id with
    | some
        { workspaceId, node, target := _,
          stage := .rewrapping old (some rootedAt) } =>
        some
          { pool := memory.nodePool workspaceId
            isNode := memory.nodePool_cases workspaceId
            place := slot workspaceId node.id
            held := { key := memory.cells old, epoch := node.keyEpoch }
            rootedAt }
    | _ => none
  | _ => none

/-- What the moves of a run hold anew. -/
def newHolds (memory : Memory V) : List (Move V) → List NewHold
  | [] => []
  | move :: rest =>
    (memory.newHold move).toList ++ (memory.step move).newHolds rest

/-- Whether a move is a walk's own. -/
def walks : Move V → Bool
  | .begins _ _ _ _ | .resumes _ _ _ | .wrapped _ _ | .rekeyed _ _ => true
  | _ => false

/-- Every key held reads as it did, but for those held anew. -/
structure KeysLeft (before after : Memory V) (anew : List NewHold) : Prop where
  keys : ∀ pool place, after.reading pool place = before.reading pool place ∨
    ∃ hold ∈ anew, hold.pool = pool ∧ hold.place = place ∧
      after.reading pool place = some hold.held
  lineage : ∀ place, after.rest.lineage.get? place =
      before.rest.lineage.get? place ∨
    ∃ hold ∈ anew, hold.place = place ∧
      after.rest.lineage.get? place = some hold.rootedAt

/-- Keys left through two runs are left through both. -/
theorem KeysLeft.trans
    {first second third : Memory V}
    {earlier later : List NewHold}
    (before : KeysLeft first second earlier)
    (after : KeysLeft second third later) :
    KeysLeft first third (earlier ++ later) where
  keys := by
    intro pool place
    rcases after.keys pool place with same | ⟨hold, member, found⟩
    · rw [same]
      refine (before.keys pool place).imp_right ?_
      rintro ⟨hold, member, found⟩
      exact ⟨hold, mem_append_left _ member, found⟩
    · exact .inr ⟨hold, mem_append_right _ member, found⟩
  lineage := by
    intro place
    rcases after.lineage place with same | ⟨hold, member, found⟩
    · rw [same]
      refine (before.lineage place).imp_right ?_
      rintro ⟨hold, member, found⟩
      exact ⟨hold, mem_append_left _ member, found⟩
    · exact .inr ⟨hold, mem_append_right _ member, found⟩

theorem KeysLeft.of_frame
    {before after : Memory V}
    {touched : Site → Prop}
    (frame : Frame before after touched)
    (spared : ∀ pool place, ¬ touched (.held pool place))
    (lineage : after.rest.lineage = before.rest.lineage)
    (anew : List NewHold) :
    KeysLeft before after anew where
  keys pool place := .inl (frame.reading (spared pool place))
  lineage place := .inl (by rw [lineage])

theorem rest_goesOn (id : Nat) (call : Call) (old : Nat) (fresh : Key) :
    (memory.goesOn id call old fresh).rest = memory.rest := by
  unfold goesOn
  split <;> split <;> rfl

/-- A move of a walk leaves the keys it does not hold anew. -/
theorem Owned.keysLeft
    (owned : memory.Owned)
    {move : Move V}
    (isWalk : walks move = true) :
    KeysLeft memory (memory.step move) (memory.newHold move).toList := by
  have frame := (owned.step move).2
  cases move with
  | begins id workspaceId node target =>
    refine .of_frame frame (fun _ _ isTouched => by cases isTouched) ?_ _
    show (memory.begins id workspaceId node target).rest.lineage = _
    unfold Memory.begins
    split
    · rfl
    · split <;> rfl
  | resumes id opened fresh =>
    refine .of_frame frame (fun _ _ isTouched => by cases isTouched) ?_ _
    show (memory.resumes id opened fresh).rest.lineage = _
    unfold Memory.resumes
    split
    · dsimp only
      split
      · rw [rest_goesOn]
      · rw [rest_goesOn]
        rfl
      · rfl
    · rfl
  | rekeyed id done =>
    refine .of_frame frame (fun _ _ isTouched => ?_) ?_ _
    · rcases isTouched with isCall | ⟨_, _, isPending⟩
      · cases isCall
      · cases isPending
    · show (memory.rekeyed id done).rest.lineage = _
      unfold Memory.rekeyed
      split
      · split <;> rfl
      · rfl
  | wrapped id done =>
    have ended : ∀ {touched : Site → Prop}
        {after : Memory V}, Frame memory after touched →
        (∀ pool place, ¬ touched (.held pool place)) →
        after.rest = memory.rest →
        KeysLeft memory after (memory.newHold (.wrapped id done)).toList :=
      fun frame spared rest => .of_frame frame spared (by rw [rest]) _
    show KeysLeft memory (memory.wrapped id done) _
    unfold Memory.wrapped
    split
    · next workspaceId node target old held isCall =>
        have isOld : memory.at_ (.call id, false) = some old := by
          simp [at_, isCall, Stage.old?]
        split
        · next rootedAt =>
            have loose := owned.loose_endCall isOld
            have remembered := (owned.endCall id).rememberNodeKey loose
              workspaceId node.id node.keyEpoch rootedAt
            have whole : Frame memory _ _ := Frame.trans
              ((Frame.endCall memory id).mono fun _ => Or.inl)
              (remembered.2.mono fun _ => Or.inr)
            have isNew : memory.newHold (.wrapped id true) = some
                { pool := memory.nodePool workspaceId
                  isNode := memory.nodePool_cases workspaceId
                  place := slot workspaceId node.id
                  held :=
                    { key := memory.cells old, epoch := node.keyEpoch }
                  rootedAt } := by
              simp [newHold, isCall]
            rw [isNew]
            refine ⟨?_, ?_⟩
            · intro pool place
              by_cases same : Site.held pool place =
                  .held (memory.nodePool workspaceId)
                    (slot workspaceId node.id)
              · cases same
                refine .inr ⟨_, mem_singleton_self _, rfl, rfl, ?_⟩
                exact reading_hold _ _ _ loose
              · refine .inl (whole.reading ?_)
                rintro (isCall | isPlace)
                · cases isCall
                · exact same isPlace
            · intro place
              by_cases same : place = slot workspaceId node.id
              · subst same
                refine .inr ⟨_, mem_singleton_self _, rfl, ?_⟩
                exact (get?_set _ _ _ _).trans (if_pos rfl)
              · exact .inl
                  ((get?_set _ _ _ _).trans (if_neg same))
        · exact ended (owned.endOwn (at_rewrapping isCall rfl)).2
            (fun _ _ isTouched => by cases isTouched) rfl
    · exact ended (.refl memory fun _ => False)
        (fun _ _ isTouched => isTouched) rfl
  | _ => cases isWalk

theorem Owned.keysLeft_run
    (owned : memory.Owned)
    {moves : List (Move V)}
    (walk : ∀ move ∈ moves, walks move = true) :
    KeysLeft memory (Runs.run Memory.step memory moves)
      (memory.newHolds moves) := by
  induction moves generalizing memory with
  | nil =>
    exact .of_frame (.refl memory fun _ => False) (fun _ _ => id) rfl _
  | cons move rest inductionHypothesis =>
    exact (owned.keysLeft (walk move mem_cons_self)).trans
      (inductionHypothesis (owned.step move).1
        fun other member => walk other (mem_cons_of_mem _ member))

/--
A batch that is dropped leaves every node key, previous key and lineage as it
was, but for keys a re-wrap opened and holds anew, and nothing pending.
-/
def Restores (memory : Memory V) : Prop :=
  ∀ moves workspaceId nodeIds, (∀ move ∈ moves, walks move = true) →
    let after := (Runs.run Memory.step memory moves).dropPending workspaceId
      nodeIds
    KeysLeft memory after (memory.newHolds moves) ∧
      (∀ pool place, pool = .ownPrevNodeKeys ∨ pool = .guestPrevNodeKeys →
        after.reading pool place = memory.reading pool place) ∧
      ∀ nodeId ∈ nodeIds,
        after.pendingReading (slot workspaceId nodeId) = none

/-- A dropped key is pending no more. -/
theorem Owned.dropPending
    (owned : memory.Owned)
    (workspaceId : String)
    {nodeIds : List String}
    {nodeId : String}
    (named : nodeId ∈ nodeIds) :
    (memory.dropPending workspaceId nodeIds).pendingReading
      (slot workspaceId nodeId) = none := by
  have gone : ∀ memory : Memory V,
      (Memory.dropOne workspaceId memory nodeId).pendingReading
        (slot workspaceId nodeId) = none := by
    intro memory
    rw [pendingReading_eq]
    exact congrArg (Option.map _)
      ((get?_erase _ _ _).trans (if_pos rfl))
  have stays : ∀ (rest : List String) {memory : Memory V}, memory.Owned →
      memory.pendingReading (slot workspaceId nodeId) = none →
        (rest.foldl (Memory.dropOne workspaceId) memory).pendingReading
          (slot workspaceId nodeId) = none := by
    intro rest
    induction rest with
    | nil =>
      exact fun _ none_ => none_
    | cons other rest inductionHypothesis =>
      intro memory owned none_
      have next := owned.dropOne workspaceId other
      refine inductionHypothesis next.1 ?_
      by_cases same : slot workspaceId nodeId = slot workspaceId other
      · rw [pendingReading_eq, same]
        exact congrArg (Option.map _)
          ((get?_erase _ _ _).trans (if_pos rfl))
      · rw [next.2.pendingReading fun isPlace => same
          (Site.pending.inj isPlace)]
        exact none_
  unfold Memory.dropPending
  induction nodeIds generalizing memory with
  | nil =>
    cases named
  | cons other rest inductionHypothesis =>
    have next := owned.dropOne workspaceId other
    rcases mem_cons.mp named with rfl | later
    · exact stays rest next.1 (gone memory)
    · exact inductionHypothesis next.1 later

theorem rest_dropPending (workspaceId : String) (nodeIds : List String) :
    (memory.dropPending workspaceId nodeIds).rest = memory.rest := by
  unfold dropPending
  induction nodeIds generalizing memory with
  | nil =>
    rfl
  | cons nodeId rest inductionHypothesis =>
    exact inductionHypothesis

/-- A dropped batch leaves keys and lineage as they were. -/
theorem Owned.restores (owned : memory.Owned) : memory.Restores := by
  intro moves workspaceId nodeIds walk
  have left := owned.keysLeft_run walk
  have ownedThen := owned.run moves
  have frame := (ownedThen.step (.drops workspaceId nodeIds)).2
  have spared : ∀ pool place,
      ¬ (Runs.run Memory.step memory moves).touches
        (.drops workspaceId nodeIds) (.held pool place) := by
    rintro pool place ⟨_, _, isPlace⟩
    cases isPlace
  have whole := left.trans (.of_frame frame spared
    (by rw [show Memory.step _ (.drops workspaceId nodeIds) =
      Memory.dropPending _ workspaceId nodeIds from rfl,
      rest_dropPending]) [])
  rw [append_nil] at whole
  refine ⟨whole, ?_, fun nodeId named => ownedThen.dropPending _ named⟩
  intro pool place isPrevious
  rcases whole.keys pool place with same | ⟨hold, _, isPool, _⟩
  · exact same
  · have isNode := hold.isNode
    rw [isPool] at isNode
    rcases isPrevious with rfl | rfl <;> rcases isNode with isPool | isPool <;>
      cases isPool

/-- The key a call that waited may replace: its copy, or what was opened. -/
def replaced
    (memory : Memory V)
    (old : Option Nat)
    (opened : Except CryptoError Key) :
    Option Key :=
  match old, opened with
  | some old, _ => some (memory.cells old)
  | none, .ok key => some key
  | none, .error _ => none

/--
A call that goes on to re-key, and later ends in a pending key that is left
alone until its node is committed, gives its node the fresh key at its target,
with the key replaced as its own previous one.
-/
def Settles (memory : Memory V) : Prop :=
  ∀ id call old opened freshKey fresh waits rootedAt,
    memory.calls.get? id = some call → call.stage = .opening old →
    let rekeying := memory.resumes id opened freshKey
    rekeying.calls.get? id =
      some { call with stage := .rekeying fresh waits rootedAt } →
    ∃ oldKey, memory.replaced old opened = some oldKey ∧
      ∀ meanwhile later nodeIds,
        Runs.Each Memory.step (fun memory move =>
          ¬ memory.touches move (.call id)) rekeying meanwhile →
        let pending := (Runs.run Memory.step rekeying meanwhile).rekeyed id true
        Runs.Each Memory.step (fun memory move =>
          ¬ memory.touches move (.pending call.place)) pending later →
        call.node.id ∈ nodeIds →
        ((Runs.run Memory.step pending later).commitPending call.workspaceId
          nodeIds).Committed call.workspaceId call.place
            { fresh := freshKey
              epoch := call.target
              old := oldKey
              oldEpoch := call.node.keyEpoch
              rootedAt }

/-- A call that goes on to rekey holds its fresh key and the old. -/
theorem Owned.rekeying_of_goesOn
    (owned : memory.Owned)
    {id old fresh waits : Nat}
    {call after : Call}
    {freshKey : Key}
    {rootedAt : Option Nat}
    (replaces : memory.Replaces id old)
    (isAfter : (memory.goesOn id call old freshKey).calls.get? id =
      some after)
    (isStage : after.stage = .rekeying fresh waits rootedAt) :
    (memory.goesOn id call old freshKey).cells fresh = freshKey ∧
      (memory.goesOn id call old freshKey).cells waits = memory.cells old := by
  have ended : ∀ {gone : List Nat},
      ((memory.endCall id).zero gone).calls.get? id = none :=
    fun {_} => (get?_erase _ _ _).trans (if_pos rfl)
  have waiting : ∀ {memory : Memory V} {stage : Stage},
      (memory.await id call stage).calls.get? id = some after →
        after.stage = stage := by
    intro memory stage isCall
    have isAfter := ((get?_set _ _ _ _).trans
      (if_pos rfl)).symm.trans isCall
    rw [← Option.some.inj isAfter]
  unfold Memory.goesOn at isAfter ⊢
  split at isAfter
  · next rewraps =>
      split at isAfter
      · exact absurd (ended.symm.trans isAfter) (Option.some_ne_none _).symm
      · have isRewrapping := (waiting isAfter).symm.trans isStage
        cases isRewrapping
  · next rekeys =>
      rw [if_neg rekeys]
      split at isAfter
      · exact absurd (ended.symm.trans isAfter) (Option.some_ne_none _).symm
      · next root isRoot =>
          have isRekeying := (waiting isAfter).symm.trans isStage
          cases isRekeying
          refine ⟨if_pos rfl, if_neg ?_⟩
          rcases replaces with isAt | loose
          · exact Nat.ne_of_lt (owned.below isAt)
          · exact Nat.ne_of_lt loose.below

/-- A re-key left alone ends as its node's own key when committed. -/
theorem Owned.settles (owned : memory.Owned) : memory.Settles := by
  intro id call old opened freshKey fresh waits rootedAt isCall isOpening
    rekeying isRekeying
  have parts : ∃ oldKey, memory.replaced old opened = some oldKey ∧
      rekeying.cells fresh = freshKey ∧ rekeying.cells waits = oldKey := by
    obtain ⟨workspaceId, node, target, stage⟩ := call
    simp only at isOpening
    subst isOpening
    have resumed : rekeying = memory.resumes id opened freshKey := rfl
    unfold Memory.resumes at resumed
    rw [isCall] at resumed
    dsimp only at resumed
    cases old with
    | some old =>
      dsimp only at resumed
      rw [resumed] at isRekeying ⊢
      exact ⟨_, rfl, owned.rekeying_of_goesOn
        (.inl (by simp [at_, isCall, Stage.old?])) isRekeying rfl⟩
    | none =>
      cases opened with
      | error reason =>
        dsimp only at resumed
        rw [resumed] at isRekeying
        exact absurd (((get?_erase _ _ _).trans
          (if_pos rfl)).symm.trans isRekeying) (Option.some_ne_none _).symm
      | ok key =>
        dsimp only at resumed
        rw [resumed] at isRekeying ⊢
        obtain ⟨isFresh, isOld⟩ := (owned.put key).rekeying_of_goesOn
          (.inr (owned.loose_made key)) isRekeying rfl
        exact ⟨key, rfl, isFresh, isOld.trans (if_pos rfl)⟩
  obtain ⟨oldKey, isReplaced, isFresh, isOld⟩ := parts
  refine ⟨oldKey, isReplaced, ?_⟩
  intro meanwhile later nodeIds apart pending spared named
  have ownedRekeying : rekeying.Owned := (owned.resumes id opened freshKey).1
  have ownedThen := ownedRekeying.run meanwhile
  have frame := ownedRekeying.frame_run apart
  have notTouched : ¬ (Site.call id ≠ .call id) := fun differs => differs rfl
  -- The call and its buffers are as it left them when it began to wait.
  have isCallThen : (Runs.run Memory.step rekeying meanwhile).calls.get? id =
      some { call with stage := .rekeying fresh waits rootedAt } :=
    (frame.calls notTouched).trans isRekeying
  have atFresh : rekeying.at_ (.call id, true) = some fresh := by
    simp [at_, isRekeying, Stage.fresh?]
  have atOld : rekeying.at_ (.call id, false) = some waits := by
    simp [at_, isRekeying, Stage.old?]
  have isFreshThen := (frame.contents notTouched atFresh).trans isFresh
  have isOldThen := (frame.contents notTouched atOld).trans isOld
  have atFreshThen := (frame.at_ notTouched true).trans atFresh
  have atOldThen := (frame.at_ notTouched false).trans atOld
  have ownedPending : pending.Owned := (ownedThen.rekeyed id true).1
  have isPending : pending.pendingReading call.place = some
      { fresh := freshKey
        epoch := call.target
        old := oldKey
        oldEpoch := call.node.keyEpoch
        rootedAt } := by
    have isSet : pending =
        ((Runs.run Memory.step rekeying meanwhile).endCall id).setPending
          call.workspaceId call.node.id
          { fresh
            epoch := call.target
            old := waits
            oldEpoch := call.node.keyEpoch
            rootedAt } := by
      show Memory.rekeyed _ id true = _
      unfold Memory.rekeyed
      rw [isCallThen]
      rfl
    have kept : ∀ {cell isFresh},
        (Runs.run Memory.step rekeying meanwhile).at_ (.call id, isFresh) =
          some cell →
        pending.cells cell =
          (Runs.run Memory.step rekeying meanwhile).cells cell := by
      intro cell isFresh isAt
      rw [isSet]
      refine cells_zero_of_loose (ownedThen.loose_endCall isAt) ?_
      intro other member
      exact ⟨_, (placed_of_pendingAt member).choose_spec⟩
    rw [pendingReading_eq]
    have found : pending.pendingNodeKeys.get? call.place = some
        { fresh
          epoch := call.target
          old := waits
          oldEpoch := call.node.keyEpoch
          rootedAt } := by
      rw [isSet]
      exact (get?_set _ _ _ _).trans (if_pos rfl)
    rw [found]
    simp only [Option.map_some, PendingCells.read, kept atFreshThen,
      kept atOldThen, isFreshThen, isOldThen]
  have frameLater := ownedPending.frame_run spared
  refine (ownedPending.run later).commitPending ?_ ⟨call.node.id, named, rfl⟩
  rw [frameLater.pendingReading fun differs => differs rfl]
  exact isPending

end Memory

end Worker

end HushOS
