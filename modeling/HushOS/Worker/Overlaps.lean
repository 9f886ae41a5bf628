import HushOS.Worker.Pending
import HushOS.Worker.SplitKeys

namespace HushOS

open Toolkit List OrderedMap

namespace Worker

/-!
# Walks that overlap

A walk checks that none to its target waits, and sets its own fresh key pending
only after what it awaits.  So no pending key is replaced by another where no
two walks of a node to one target re-key at once, and one is where two do
(`rotations_settle`).
-/

variable {V : Vault}

/-- Whether a call is re-keying its node's records. -/
def Call.rekeys (call : Call) : Bool :=
  call.stage.fresh?.isSome

namespace Memory

variable {memory : Memory V}

/-- Every node key held is one the server stored as current. -/
def KeysStored
    (stored : String → Nat → Key → Prop)
    (memory : Memory V) :
    Prop :=
  ∀ pool place held, pool = .ownNodeKeys ∨ pool = .guestNodeKeys →
    memory.reading pool place = some held →
    stored place held.epoch held.key

/--
The server stored what a listing or a re-wrap opens, and what a batch commits:
it confirmed the batch.
-/
def Truthful
    (stored : String → Nat → Key → Prop)
    (memory : Memory V) :
    Move V → Prop
  | .wrapped id done => ∀ hold ∈ memory.newHold (.wrapped id done),
      stored hold.place hold.held.epoch hold.held.key
  | .commits workspaceId nodeIds => ∀ nodeId ∈ nodeIds,
      ∀ pending ∈ memory.pendingReading (slot workspaceId nodeId),
        stored (slot workspaceId nodeId) pending.epoch pending.fresh
  | .holds workspaceId nodeId key epoch _ =>
    stored (slot workspaceId nodeId) epoch key
  | _ => True

variable {stored : String → Nat → Key → Prop}

theorem KeysStored.of_reading
    {after : Memory V}
    (keys : memory.KeysStored stored)
    (same : ∀ pool place, pool = .ownNodeKeys ∨ pool = .guestNodeKeys →
      ∀ held, after.reading pool place = some held →
        memory.reading pool place = some held ∨
          stored place held.epoch held.key) :
    after.KeysStored stored := by
  intro pool place held isNode isHeld
  rcases same pool place isNode held isHeld with before | isStored
  · exact keys pool place held isNode before
  · exact isStored

/-- A commit makes no key pending. -/
theorem pendingReading_commitOne
    (owned : memory.Owned)
    {workspaceId nodeId place : String}
    {pending : PendingKey}
    (isPending : (commitOne workspaceId memory nodeId).pendingReading place =
      some pending) :
    memory.pendingReading place = some pending := by
  by_cases same : place = slot workspaceId nodeId
  · subst same
    cases before : memory.pendingReading (slot workspaceId nodeId) with
    | none =>
      rw [pendingReading_eq, Option.map_eq_none_iff] at before
      unfold commitOne at isPending
      rw [before, pendingReading_eq, before] at isPending
      cases isPending
    | some =>
      rw [(owned.commitOne_pending before).taken] at isPending
      cases isPending
  · have frame := (owned.commitOne workspaceId nodeId).2
    rw [← frame.pendingReading fun isPlace => same (Option.some.inj isPlace)]
    exact isPending

/-- Committing a stored key leaves the held keys stored. -/
theorem KeysStored.commitOne
    (keys : memory.KeysStored stored)
    (owned : memory.Owned)
    {workspaceId nodeId : String}
    (isStored : ∀ pending ∈ memory.pendingReading (slot workspaceId nodeId),
      stored (slot workspaceId nodeId) pending.epoch pending.fresh) :
    (Memory.commitOne workspaceId memory nodeId).KeysStored stored := by
  have frame := (owned.commitOne_sites workspaceId nodeId).2
  refine keys.of_reading fun pool place isNode held isHeld => ?_
  by_cases touched : Site.held pool place ∈
      memory.commitSites workspaceId nodeId
  · have notPrevious : pool ≠ memory.prevPool workspaceId := by
      unfold prevPool
      rcases isNode with rfl | rfl <;> split <;> exact fun same => by cases same
    have isPlace : pool = memory.nodePool workspaceId ∧
        place = slot workspaceId nodeId := by
      simpa [commitSites, notPrevious] using touched
    obtain ⟨rfl, rfl⟩ := isPlace
    cases before : memory.pendingReading (slot workspaceId nodeId) with
    | none =>
      rw [pendingReading_eq, Option.map_eq_none_iff] at before
      unfold Memory.commitOne at isHeld
      rw [before] at isHeld
      exact .inl isHeld
    | some pending =>
      have committed := (owned.commitOne_pending before).current
      rw [nodePool, workspaceKeys_commitOne] at committed
      have isCommitted := committed.symm.trans isHeld
      cases isCommitted
      exact .inr (isStored pending before)
  · exact .inl (by rw [← frame.reading touched]; exact isHeld)

/-- Committing stored keys leaves the held keys stored. -/
theorem KeysStored.commitPending
    (keys : memory.KeysStored stored)
    (owned : memory.Owned)
    {workspaceId : String}
    {nodeIds : List String}
    (isStored : ∀ nodeId ∈ nodeIds,
      ∀ pending ∈ memory.pendingReading (slot workspaceId nodeId),
        stored (slot workspaceId nodeId) pending.epoch pending.fresh) :
    (memory.commitPending workspaceId nodeIds).KeysStored stored := by
  unfold Memory.commitPending
  induction nodeIds generalizing memory with
  | nil =>
    exact keys
  | cons nodeId rest inductionHypothesis =>
    refine inductionHypothesis
      (keys.commitOne owned (isStored nodeId mem_cons_self))
      (owned.commitOne workspaceId nodeId).1 ?_
    intro other member pending isPending
    exact isStored other (mem_cons_of_mem _ member) pending
      (pendingReading_commitOne owned isPending)

variable {move : Move V}

/-- A truthful move leaves the held keys stored. -/
theorem KeysStored.step
    (keys : memory.KeysStored stored)
    (owned : memory.Owned)
    (truthful : memory.Truthful stored move) :
    (memory.step move).KeysStored stored := by
  have frame := (owned.step move).2
  have elsewhere : (∀ pool place, pool = .ownNodeKeys ∨
      pool = .guestNodeKeys → ¬ memory.touches move (.held pool place)) →
      (memory.step move).KeysStored stored := fun spared =>
    keys.of_reading fun pool place isNode held isHeld =>
      .inl (by rw [← frame.reading (spared pool place isNode)]; exact isHeld)
  have walked : ∀ isWalk : walks move = true,
      (∀ hold ∈ memory.newHold move,
        stored hold.place hold.held.epoch hold.held.key) →
      (memory.step move).KeysStored stored := by
    intro isWalk isStored
    refine keys.of_reading fun pool place _ held isHeld => ?_
    rcases (owned.keysLeft isWalk).keys pool place with
      same | ⟨hold, member, _, isPlace, isNew⟩
    · exact .inl (same ▸ isHeld)
    · cases isNew.symm.trans isHeld
      subst isPlace
      exact .inr (isStored hold (Option.mem_toList.mp member))
  cases move with
  | begins | resumes | rekeyed =>
    exact walked rfl fun hold none_ => by cases none_
  | wrapped =>
    exact walked rfl truthful
  | commits workspaceId nodeIds =>
    exact keys.commitPending owned truthful
  | holds workspaceId nodeId key epoch rootedAt =>
    refine keys.of_reading fun pool place _ held isHeld => ?_
    by_cases touched : Site.held pool place =
        .held (memory.nodePool workspaceId) (slot workspaceId nodeId)
    · cases touched
      have isNew := reading_hold (memory.nodePool workspaceId)
        (slot workspaceId nodeId) { cell := memory.made, epoch }
        (owned.loose_made key)
      cases isNew.symm.trans isHeld
      have isStored : stored (slot workspaceId nodeId) epoch key := truthful
      refine .inr ?_
      simpa [HeldCell.read, put] using isStored
    · exact .inl (by rw [← frame.reading touched]; exact isHeld)
  | holdsPrevious workspaceId nodeId key epoch own =>
    refine elsewhere fun pool place isNode touched => ?_
    have isPool : pool = memory.prevPool workspaceId :=
      (Site.held.inj touched).1
    unfold prevPool at isPool
    rcases isNode with rfl | rfl <;> split at isPool <;> cases isPool
  | dropsHeld test =>
    refine keys.of_reading fun pool place _ held isHeld => ?_
    by_cases passes : test place = true
    · rw [reading_eq] at isHeld
      have gone : ((memory.dropHeldWhere test).pools pool).get? place =
          none :=
        (get?_keep _ _ _).trans (if_neg (by simp [passes]))
      rw [show (memory.step (.dropsHeld test)).pools =
        (memory.dropHeldWhere test).pools from rfl, gone] at isHeld
      cases isHeld
    · exact .inl (by rw [← frame.reading passes]; exact isHeld)
  | drops =>
    exact elsewhere fun _ _ _ touched => by
      obtain ⟨_, _, isPlace⟩ := touched
      cases isPlace
  | dropsAll | dropsPending =>
    exact elsewhere fun _ _ _ touched => by cases touched
  | others =>
    exact elsewhere fun _ _ _ touched => touched

/-- A call goes on to re-key while no other does so for its node and target. -/
def Alone (memory : Memory V) : Move V → Prop
  | .resumes id _ _ => ∀ own ∈ memory.calls.get? id,
      own.node.keyEpoch < own.target →
        ∀ other, ∀ call ∈ memory.calls.get? other, other ≠ id →
          call.rekeys = true → call.place = own.place →
            call.target ≠ own.target
  | _ => True

/-- A move replaces no pending key by another at the same epoch. -/
def KeepsPending (memory : Memory V) (move : Move V) : Prop :=
  ∀ place before after, memory.pendingReading place = some before →
    (memory.step move).pendingReading place = some after →
    after.epoch = before.epoch → after = before

/-- Calls that re-key stand alone, with nothing pending at their targets. -/
structure Exclusive (memory : Memory V) : Prop where
  nothing : ∀ {id call pending}, memory.calls.get? id = some call →
    call.rekeys = true → memory.pendingReading call.place = some pending →
      pending.epoch ≠ call.target
  alone : ∀ {id other call called}, memory.calls.get? id = some call →
    memory.calls.get? other = some called → call.rekeys = true →
    called.rekeys = true → call.place = called.place →
    call.target = called.target → id = other

/-- A call that has come from `own` to re-key, with nothing pending. -/
structure CameToRekey (memory : Memory V) (own call : Call) : Prop where
  place : call.place = own.place
  target : call.target = own.target
  below : own.node.keyEpoch < own.target
  nothing : ∀ {pending}, memory.pendingReading own.place = some pending →
    pending.epoch ≠ own.target

/-- A call that goes on to re-key came to it with nothing pending. -/
theorem came_goesOn
    {id old : Nat}
    {call after : Call}
    {fresh : Key}
    (isAfter : (memory.goesOn id call old fresh).calls.get? id = some after)
    (rekeys : after.rekeys = true) :
    memory.CameToRekey call after := by
  unfold goesOn at isAfter
  split at isAfter
  · split at isAfter
    · rw [calls_endCall] at isAfter
      cases isAfter
    · rw [calls_await] at isAfter
      cases isAfter
      cases rekeys
  · next notReached =>
      split at isAfter
      · rw [calls_endCall] at isAfter
        cases isAfter
      · next rootedAt isRekey =>
          rw [calls_await] at isAfter
          cases isAfter
          refine ⟨rfl, rfl, not_le.mp notReached, ?_⟩
          intro pending isPending same
          simp only [Ledger.toRekey, bind_eq_ok, exists_unit,
            refuseIf_eq_ok] at isRekey
          exact isRekey.1 (congrArg (Option.map PendingKey.epoch) isPending
            |>.trans (congrArg some same))

/-- A rekeying call was one before or has just come to it. -/
theorem calls_step
    (owned : memory.Owned)
    {id : Nat}
    {call : Call}
    (isCall : (memory.step move).calls.get? id = some call)
    (rekeys : call.rekeys = true) :
    memory.calls.get? id = some call ∨
      ∃ opened fresh own, move = .resumes id opened fresh ∧
        memory.calls.get? id = some own ∧ memory.CameToRekey own call := by
  have frame := (owned.step move).2
  by_cases touched : memory.touches move (.call id)
  · cases move with
    | begins other workspaceId node target =>
      cases touched
      have begun : (memory.begins id workspaceId node target).calls.get? id =
          some call := isCall
      unfold begins at begun
      split at begun
      · exact .inl begun
      · split at begun
        · exact .inl begun
        · rw [calls_await] at begun
          cases begun
          cases rekeys
        · rw [calls_await] at begun
          cases begun
          cases rekeys
    | resumes other opened fresh =>
      cases touched
      have resumed : (memory.resumes id opened fresh).calls.get? id =
          some call := isCall
      unfold resumes at resumed
      split at resumed
      · next workspaceId node target old isOwn =>
          refine .inr ⟨opened, fresh, _, rfl, isOwn, ?_⟩
          dsimp only at resumed
          split at resumed
          · exact came_goesOn resumed rekeys
          · next key =>
              have came := came_goesOn resumed rekeys
              refine ⟨came.place, came.target, came.below, ?_⟩
              intro pending isPending
              refine came.nothing ?_
              rw [(Frame.put owned key fun _ => False).pendingReading
                not_false]
              exact isPending
          · rw [show memory.endCall id = (memory.endCall id).zero [] by
              simp [zero], calls_endCall] at resumed
            cases resumed
      · exact .inl resumed
    | wrapped other done =>
      rcases touched with same | ⟨_, _, isPlace⟩
      · cases same
        have ended : (memory.wrapped id done).calls.get? id = some call :=
          isCall
        unfold wrapped at ended
        split at ended
        · split at ended
          · exact absurd ((calls_endCall id []).symm.trans ended)
              (Option.some_ne_none _).symm
          · rw [calls_endCall] at ended
            cases ended
        · exact .inl ended
      · cases isPlace
    | rekeyed other done =>
      rcases touched with same | ⟨_, _, isPlace⟩
      · cases same
        have ended : (memory.rekeyed id done).calls.get? id = some call :=
          isCall
        unfold rekeyed at ended
        split at ended
        · split at ended
          · exact absurd ((calls_endCall id []).symm.trans ended)
              (Option.some_ne_none _).symm
          · rw [calls_endCall] at ended
            cases ended
        · exact .inl ended
      · cases isPlace
    | commits =>
      obtain ⟨_, _, isPlace⟩ := touched
      cases isPlace
    | drops =>
      obtain ⟨_, _, isPlace⟩ := touched
      cases isPlace
    | others =>
      exact touched.elim
    | _ => cases touched
  · exact .inl ((frame.calls touched).symm.trans isCall)

/-- A pending key was so before or was put by its own rekeying call. -/
theorem pending_step
    (owned : memory.Owned)
    {place : String}
    {pending : PendingKey}
    (isPending : (memory.step move).pendingReading place = some pending) :
    memory.pendingReading place = some pending ∨
      ∃ id call, move = .rekeyed id true ∧
        memory.calls.get? id = some call ∧ call.rekeys = true ∧
        call.place = place ∧ pending.epoch = call.target := by
  have frame := (owned.step move).2
  have kept : ∀ {test : String → Bool},
      (memory.dropPendingWhere test).pendingReading place = some pending →
      ¬ (Site.pending place).pendingWhere test = true := by
    intro test isPending passes
    rw [pendingReading_eq] at isPending
    have gone : (memory.dropPendingWhere test).pendingNodeKeys.get? place =
        none :=
      (get?_keep _ _ _).trans (if_neg (by
        simpa [Site.pendingWhere] using passes))
    rw [gone] at isPending
    cases isPending
  by_cases touched : memory.touches move (.pending place)
  · cases move with
    | rekeyed id done =>
      rcases touched with isCall | ⟨call, isCall, isPlace⟩
      · cases isCall
      · cases isPlace
        have rekeyed : (memory.rekeyed id done).pendingReading call.place =
            some pending := isPending
        unfold Memory.rekeyed at rekeyed
        rw [isCall] at rekeyed
        obtain ⟨workspaceId, node, target, stage⟩ := call
        cases stage with
        | rekeying fresh old rootedAt =>
          cases done with
          | true =>
            refine .inr ⟨id, _, rfl, isCall, rfl, rfl, ?_⟩
            dsimp only at rekeyed
            rw [if_pos rfl, pendingReading_eq,
              Option.map_eq_some_iff] at rekeyed
            obtain ⟨cells, isSet, rfl⟩ := rekeyed
            cases ((get?_set _ _ _ _).trans
              (if_pos rfl)).symm.trans isSet
            rfl
          | false =>
            dsimp only at rekeyed
            have ended := (owned.endOwn (at_rekeying isCall rfl)).2
            rw [if_neg Bool.false_ne_true, ended.pendingReading
              fun isPlace => by cases isPlace] at rekeyed
            exact .inl rekeyed
        | opening | rewrapping =>
          exact .inl rekeyed
    | commits workspaceId nodeIds =>
      have fold : ∀ (nodeIds : List String) {memory : Memory V},
          memory.Owned →
          (nodeIds.foldl (commitOne workspaceId) memory).pendingReading
            place = some pending →
          memory.pendingReading place = some pending := by
        intro nodeIds
        induction nodeIds with
        | nil =>
          exact fun _ isPending => isPending
        | cons nodeId rest inductionHypothesis =>
          exact fun owned isPending => pendingReading_commitOne owned
            (inductionHypothesis (owned.commitOne workspaceId nodeId).1
              isPending)
      exact .inl (fold nodeIds owned isPending)
    | drops workspaceId nodeIds =>
      obtain ⟨nodeId, named, isPlace⟩ := touched
      cases isPlace
      rw [show (memory.step (.drops workspaceId nodeIds)) =
        memory.dropPending workspaceId nodeIds from rfl,
        owned.dropPending workspaceId named] at isPending
      cases isPending
    | dropsAll workspaceId =>
      exact absurd touched (kept isPending)
    | dropsPending test =>
      exact absurd touched (kept isPending)
    | wrapped =>
      rcases touched with isCall | ⟨_, _, isPlace⟩
      · cases isCall
      · cases isPlace
    | others =>
      exact touched.elim
    | _ => cases touched
  · exact .inl ((frame.pendingReading touched).symm.trans isPending)

/-- A lone move keeps calls exclusive and pending keys in place. -/
theorem Exclusive.step
    (exclusive : memory.Exclusive)
    (owned : memory.Owned)
    (alone : memory.Alone move) :
    (memory.step move).Exclusive ∧ memory.KeepsPending move := by
  refine ⟨⟨?_, ?_⟩, ?_⟩
  · intro id call pending isCall rekeys isPending
    rcases pending_step owned isPending with
      before | ⟨other, called, rfl, isCalled, rekeysToo, isPlace, isEpoch⟩
    · rcases calls_step owned isCall rekeys with
        was | ⟨_, _, own, rfl, _, came⟩
      · exact exclusive.nothing was rekeys before
      · rw [came.target]
        exact came.nothing (came.place ▸ before)
    · -- The call that re-keyed has ended, and no other had its target.
      rcases calls_step owned isCall rekeys with was | ⟨_, _, _, isMove, _⟩
      · intro sameEpoch
        have same := exclusive.alone was isCalled rekeys rekeysToo
          isPlace.symm (sameEpoch.symm.trans isEpoch)
        subst same
        have ended : (memory.rekeyed id true).calls.get? id = none := by
          unfold rekeyed
          rw [was]
          obtain ⟨workspaceId, node, target, stage⟩ := call
          cases stage with
          | rekeying => exact calls_endCall id []
          | opening | rewrapping => cases rekeys
        exact absurd (ended.symm.trans isCall) (Option.some_ne_none _).symm
      · cases isMove
  · intro id other call called isCall isCalled rekeys rekeysToo isPlace isTarget
    rcases calls_step owned isCall rekeys with
      was | ⟨_, _, own, rfl, isOwn, came⟩
    · rcases calls_step owned isCalled rekeysToo with
        wasToo | ⟨_, _, own, rfl, isOwn, came⟩
      · exact exclusive.alone was wasToo rekeys rekeysToo isPlace isTarget
      · by_contra differs
        exact alone own isOwn came.below id call was differs rekeys
          (isPlace.trans came.place) (isTarget.trans came.target)
    · rcases calls_step owned isCalled rekeysToo with
        wasToo | ⟨_, _, _, isMove, _⟩
      · by_contra differs
        exact alone own isOwn came.below other called wasToo
          (Ne.symm differs) rekeysToo (isPlace.symm.trans came.place)
          (isTarget.symm.trans came.target)
      · cases isMove
        rfl
  · intro place before after wasPending isPending sameEpoch
    rcases pending_step owned isPending with
      same | ⟨_, call, rfl, isCall, rekeys, rfl, isEpoch⟩
    · exact Option.some.inj (same.symm.trans wasPending)
    · exact absurd (sameEpoch.symm.trans isEpoch)
        (exclusive.nothing isCall rekeys wasPending)

theorem keepsPending_run
    (owned : memory.Owned)
    (exclusive : memory.Exclusive)
    {moves : List (Move V)}
    (alone : Runs.Each Memory.step Memory.Alone memory moves) :
    Runs.Each Memory.step Memory.KeepsPending memory moves := by
  induction moves generalizing memory with
  | nil =>
    trivial
  | cons move rest inductionHypothesis =>
    obtain ⟨next, keeps⟩ := exclusive.step owned alone.1
    exact ⟨keeps, inductionHypothesis (owned.step move).1 next alone.2⟩

/-- The fresh key of a call that re-keys. -/
def freshOf (memory : Memory V) (call : Call) : Option Key :=
  call.stage.fresh?.map memory.cells

/-- A rekeyed call leaves its fresh key pending. -/
theorem rekeyed_pending
    (owned : memory.Owned)
    {id : Nat}
    {call : Call}
    (isCall : memory.calls.get? id = some call)
    (rekeys : call.rekeys = true) :
    ∃ pending, (memory.rekeyed id true).pendingReading call.place =
        some pending ∧
      pending.epoch = call.target ∧
      memory.freshOf call = some pending.fresh := by
  obtain ⟨workspaceId, node, target, stage⟩ := call
  cases stage with
  | rekeying fresh old rootedAt =>
    have isFresh : memory.at_ (.call id, true) = some fresh := by
      simp [at_, isCall, Stage.fresh?]
    have kept : (memory.rekeyed id true).cells fresh =
        memory.cells fresh := by
      unfold rekeyed
      rw [isCall]
      refine cells_zero_of_loose (owned.loose_endCall isFresh) ?_
      intro other member
      exact ⟨_, (placed_of_pendingAt member).choose_spec⟩
    have isSet : (memory.rekeyed id true).pendingNodeKeys.get?
        (slot workspaceId node.id) = some
          { fresh, epoch := target, old, oldEpoch := node.keyEpoch,
            rootedAt } := by
      unfold rekeyed
      rw [isCall]
      exact (get?_set _ _ _ _).trans (if_pos rfl)
    refine ⟨_, (pendingReading_eq _ _).trans
      (congrArg (Option.map _) isSet), rfl, ?_⟩
    rw [freshOf]
    simp [Stage.fresh?, PendingCells.read, kept]
  | opening | rewrapping =>
    cases rekeys

/-- Two overlapping calls replace one pending key by another. -/
theorem replaces_of_overlap
    (owned : memory.Owned)
    {id other : Nat}
    {call called : Call}
    (isCall : memory.calls.get? id = some call)
    (isCalled : memory.calls.get? other = some called)
    (differs : id ≠ other)
    (rekeys : call.rekeys = true)
    (rekeysToo : called.rekeys = true)
    (samePlace : call.place = called.place)
    (sameTarget : call.target = called.target)
    (unlike : memory.freshOf call ≠ memory.freshOf called) :
    ¬ (memory.step (.rekeyed id true)).KeepsPending (.rekeyed other true) := by
  intro keeps
  obtain ⟨next, frame⟩ := owned.step (.rekeyed id true)
  have spared : ¬ memory.touches (.rekeyed id true) (.call other) := by
    rintro (same | ⟨_, _, isPlace⟩)
    · exact differs (Site.call.inj same).symm
    · cases isPlace
  have isCalledThen : (memory.step (.rekeyed id true)).calls.get? other =
      some called :=
    (frame.calls spared).trans isCalled
  obtain ⟨before, isBefore, beforeEpoch, isFresh⟩ :=
    rekeyed_pending owned isCall rekeys
  obtain ⟨after, isAfter, afterEpoch, isFreshToo⟩ :=
    rekeyed_pending next isCalledThen rekeysToo
  have same := keeps _ before after (samePlace ▸ isBefore) isAfter
    (afterEpoch.trans (sameTarget.symm.trans beforeEpoch.symm))
  have kept : (memory.step (.rekeyed id true)).freshOf called =
      memory.freshOf called := by
    unfold freshOf
    cases isStage : called.stage.fresh? with
    | none =>
      rfl
    | some fresh =>
      have isAt : memory.at_ (.call other, true) = some fresh := by
        simp [at_, isCalled, isStage]
      exact congrArg some (frame.contents spared isAt)
  refine unlike ?_
  rw [isFresh, ← kept, isFreshToo, same]

end Memory

/-- A worker that has held nothing, after some moves. -/
def Memory.after (V : Vault) (moves : List (Move V)) : Memory V :=
  Runs.run Memory.step (Memory.start V) moves

theorem Memory.exclusive_start (V : Vault) : (Memory.start V).Exclusive where
  nothing isCall := nomatch isCall
  alone isCall := nomatch isCall

/--
Whatever came before, a batch dropped leaves keys, previous keys and lineage as
they were; one committed gives each node its fresh key; the keys held are what
the server stored; and no pending key is replaced by another at its epoch, as
long as no two walks of one node to one target re-key at once, which two that
do so replace.
-/
theorem rotations_settle (V : Vault) (moves : List (Move V)) :
    (Memory.after V moves).Restores ∧
      (Memory.after V moves).Settles ∧
      (∀ stored, Runs.Each Memory.step (Memory.Truthful stored)
          (Memory.start V) moves →
        (Memory.after V moves).KeysStored stored) ∧
      (Runs.Each Memory.step Memory.Alone (Memory.start V) moves →
        Runs.Each Memory.step Memory.KeepsPending (Memory.start V) moves) ∧
      ∀ id other call called,
        (Memory.after V moves).calls.get? id = some call →
        (Memory.after V moves).calls.get? other = some called →
        id ≠ other → call.rekeys = true → called.rekeys = true →
        call.place = called.place → call.target = called.target →
        (Memory.after V moves).freshOf call ≠
          (Memory.after V moves).freshOf called →
        ¬ ((Memory.after V moves).step (.rekeyed id true)).KeepsPending
          (.rekeyed other true) := by
  have start := Memory.owned_start V
  have owned : (Memory.after V moves).Owned := start.run moves
  refine ⟨owned.restores, owned.settles, ?_, ?_, ?_⟩
  · intro stored truthful
    have both := Runs.keeps_of_each
      (fun memory : Memory V => memory.Owned ∧ memory.KeysStored stored)
      (fun memory move truthful kept =>
        ⟨(kept.1.step move).1, kept.2.step kept.1 truthful⟩)
      truthful ⟨start, fun pool place held _ isHeld => nomatch isHeld⟩
    exact both.2
  · exact Memory.keepsPending_run start (Memory.exclusive_start V)
  · intro id other call called isCall isCalled
    exact Memory.replaces_of_overlap owned isCall isCalled

/-- A ledger with one workspace, of the account's own. -/
def homeLedger : Ledger (toyVault (toyWith fun _ => 0)) :=
  { createAreaLedger _ with
    workspaceKeys := OrderedMap.empty.set "home"
      { current := 1, keys := OrderedMap.empty.set 1 (List.replicate 32 1) }
    personal := {"home"} }

/-- A folder of that workspace, as a walk is given it. -/
def homeFolder : RotatingNodeKey where
  id := "folder"
  parentId := "home"
  parentKeyEpoch := 1
  keyEpoch := 1
  wrappedParentKeyEpoch := 1
  keyEnvelope := ""

/-- Two walks of the folder to epoch two re-key at once, and the first ends. -/
def overlap : List (Move (toyVault (toyWith fun _ => 0))) :=
  [.others homeLedger,
    .holds "home" "folder" (List.replicate 32 2) 1 (some 1),
    .begins 1 "home" homeFolder 2,
    .begins 2 "home" homeFolder 2,
    .resumes 1 (.error NO_CHAIN) (List.replicate 32 3),
    .resumes 2 (.error NO_CHAIN) (List.replicate 32 4),
    .rekeyed 1 true]

/-- The key a child goes under is the first walk's, then the second's. -/
theorem overlap_replaces :
    (Memory.after _ overlap).ledger.wrapKeyFor "home" "folder" 2 =
        .ok (List.replicate 32 3) ∧
      (Memory.after _ (overlap ++ [.rekeyed 2 true])).ledger.wrapKeyFor
        "home" "folder" 2 = .ok (List.replicate 32 4) ∧
      ¬ (Memory.after _ overlap).KeepsPending (.rekeyed 2 true) := by
  refine ⟨by decide, by decide, fun keeps => ?_⟩
  have same := keeps "home/folder"
    { fresh := List.replicate 32 3, epoch := 2, old := List.replicate 32 2,
      oldEpoch := 1, rootedAt := some 1 }
    { fresh := List.replicate 32 4, epoch := 2, old := List.replicate 32 2,
      oldEpoch := 1, rootedAt := some 1 }
    (by decide) (by decide) rfl
  exact absurd same (by decide)

end Worker

end HushOS
