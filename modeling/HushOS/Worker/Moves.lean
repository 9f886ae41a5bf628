import HushOS.Worker.Owners
import HushOS.Toolkit.Runs

namespace HushOS

open Toolkit List OrderedMap

namespace Worker

/-!
# What each move does

Each move keeps every buffer in one place and touches few of them
(`Memory.Owned.step`, `Memory.frame_step`).  A walk's own moves touch the call
and its node's entries alone.
-/

variable {V : Vault}

namespace Memory

variable {memory : Memory V}

theorem calls_endCall (id : Nat) (gone : List Nat) :
    ((memory.endCall id).zero gone).calls.get? id = none :=
  (get?_erase _ _ _).trans (if_pos rfl)

theorem calls_await (id : Nat) (call : Call) (stage : Stage) :
    (memory.await id call stage).calls.get? id = some { call with stage } :=
  (get?_set _ _ _ _).trans (if_pos rfl)

theorem Owned.endZero
    (owned : memory.Owned)
    {id : Nat}
    {gone : List Nat}
    (spent : ∀ cell ∈ gone, memory.Loose cell ∨
      ∃ fresh, memory.at_ (.call id, fresh) = some cell) :
    ((memory.endCall id).zero gone).Owned ∧
      Frame memory ((memory.endCall id).zero gone) (· = .call id) := by
  refine ⟨owned.endCall id, Frame.trans (.zero owned _ ?_)
    (.endCall (memory.zero gone) id)⟩
  intro cell member
  refine (spent cell member).imp_right ?_
  rintro ⟨fresh, isAt⟩
  exact ⟨_, fresh, rfl, isAt⟩

theorem Owned.endOwn
    (owned : memory.Owned)
    {id : Nat}
    {gone : List Nat}
    (had : ∀ cell ∈ gone, ∃ fresh, memory.at_ (.call id, fresh) = some cell) :
    ((memory.endCall id).zero gone).Owned ∧
      Frame memory ((memory.endCall id).zero gone) (· = .call id) :=
  owned.endZero fun cell member => .inr (had cell member)

theorem at_rekeying
    {id fresh old : Nat}
    {call : Call}
    {rootedAt : Option Nat}
    (isCall : memory.calls.get? id = some call)
    (isStage : call.stage = .rekeying fresh old rootedAt) :
    ∀ cell ∈ [fresh, old], ∃ isFresh,
      memory.at_ (.call id, isFresh) = some cell := by
  intro cell member
  rcases mem_pair.mp member with rfl | rfl
  · exact ⟨true, by simp [at_, isCall, isStage, Stage.fresh?]⟩
  · exact ⟨false, by simp [at_, isCall, isStage, Stage.old?]⟩

theorem at_rewrapping
    {id old : Nat}
    {call : Call}
    {held : Option (Option Nat)}
    (isCall : memory.calls.get? id = some call)
    (isStage : call.stage = .rewrapping old held) :
    ∀ cell ∈ [old], ∃ isFresh,
      memory.at_ (.call id, isFresh) = some cell := by
  intro cell member
  rw [mem_singleton.mp member]
  exact ⟨false, by simp [at_, isCall, isStage, Stage.old?]⟩

/-- The buffer a call may replace: its own, or a loose one. -/
def Replaces (memory : Memory V) (id old : Nat) : Prop :=
  memory.at_ (.call id, false) = some old ∨ memory.Loose old

/-- Going on leaves every cell owned and frames all but the call. -/
theorem Owned.goesOn
    (owned : memory.Owned)
    {id old : Nat}
    (replaces : memory.Replaces id old)
    (call : Call)
    (fresh : Key) :
    (memory.goesOn id call old fresh).Owned ∧
      Frame memory (memory.goesOn id call old fresh) (· = .call id) := by
  have spent : ∀ cell ∈ [old], memory.Loose cell ∨
      ∃ fresh, memory.at_ (.call id, fresh) = some cell := by
    intro cell member
    rw [mem_singleton.mp member]
    exact replaces.symm.imp_right fun isAt => ⟨false, isAt⟩
  have ended := owned.endZero spent
  unfold Memory.goesOn
  split
  · split
    · exact ended
    · refine ⟨owned.await ?_ (fun isFresh => by cases isFresh)
        (fun _ isFresh => by cases isFresh) call, .await _ _ _ _⟩
      intro cell isOld
      cases isOld
      exact replaces
  · split
    · exact ended
    · have putOwned := owned.put fresh
      have loose := owned.loose_made fresh
      refine ⟨putOwned.await ?_ ?_ ?_ call,
        Frame.trans (.put owned fresh _) (.await _ _ _ _)⟩
      · intro cell isOld
        cases isOld
        exact replaces.imp_right fun isLoose => loose_put isLoose fresh
      · intro cell isFresh
        cases isFresh
        exact loose
      · intro cell isOld isFresh
        cases isOld
        cases isFresh
        rcases replaces with isAt | isLoose
        · exact Nat.lt_irrefl _ (owned.below isAt)
        · exact Nat.lt_irrefl _ isLoose.below

theorem Owned.begins
    (owned : memory.Owned)
    (id : Nat)
    (workspaceId : String)
    (node : RotatingNodeKey)
    (target : Nat) :
    (memory.begins id workspaceId node target).Owned ∧
      Frame memory (memory.begins id workspaceId node target)
        (· = .call id) := by
  unfold Memory.begins
  split
  · exact ⟨owned, .refl memory _⟩
  · split
    · exact ⟨owned, .refl memory _⟩
    · exact ⟨owned.await (fun isOld => by cases isOld)
        (fun isFresh => by cases isFresh) (fun isOld => by cases isOld) _,
        .await _ _ _ _⟩
    · next key _ =>
        refine ⟨(owned.put key).await ?_ (fun isFresh => by cases isFresh)
          (fun _ isFresh => by cases isFresh) _,
          Frame.trans (.put owned key _) (.await _ _ _ _)⟩
        intro cell isOld
        cases isOld
        exact .inr (owned.loose_made key)

/-- Resuming a call leaves every cell owned and frames the rest. -/
theorem Owned.resumes
    (owned : memory.Owned)
    (id : Nat)
    (opened : Except CryptoError Key)
    (fresh : Key) :
    (memory.resumes id opened fresh).Owned ∧
      Frame memory (memory.resumes id opened fresh) (· = .call id) := by
  unfold Memory.resumes
  split
  · next workspaceId node target old isCall =>
      dsimp only
      split
      · next old _ =>
          refine owned.goesOn (.inl ?_) _ fresh
          simp [at_, isCall, Stage.old?]
      · next key =>
          have replaces : (memory.put key).Replaces id memory.made :=
            .inr (owned.loose_made key)
          have going := (owned.put key).goesOn replaces
            { workspaceId, node, target, stage := .opening none } fresh
          exact ⟨going.1, Frame.trans (.put owned key _) going.2⟩
      · exact ⟨owned.endCall id, .endCall memory id⟩
  · exact ⟨owned, .refl memory _⟩

theorem Owned.rememberNodeKey
    (owned : memory.Owned)
    {cell : Nat}
    (loose : memory.Loose cell)
    (workspaceId nodeId : String)
    (epoch : Nat)
    (rootedAt : Option Nat) :
    (memory.rememberNodeKey workspaceId nodeId cell epoch rootedAt).Owned ∧
      Frame memory
        (memory.rememberNodeKey workspaceId nodeId cell epoch rootedAt)
        (· = .held (memory.nodePool workspaceId)
          (slot workspaceId nodeId)) := by
  have frame := Frame.hold owned (memory.nodePool workspaceId)
    (slot workspaceId nodeId) { cell, epoch }
  exact ⟨owned.hold _ _ { cell, epoch } loose, frame.pools,
    frame.pending, frame.calls, frame.contents⟩

/-- A wrapped key leaves every cell owned, its own place apart. -/
theorem Owned.wrapped
    (owned : memory.Owned)
    (id : Nat)
    (done : Bool) :
    (memory.wrapped id done).Owned ∧
      Frame memory (memory.wrapped id done) fun site =>
        site = .call id ∨ ∃ call, memory.calls.get? id = some call ∧
          site = .held (memory.nodePool call.workspaceId) call.place := by
  unfold Memory.wrapped
  split
  · next workspaceId node target old held isCall =>
      have isOld : memory.at_ (.call id, false) = some old := by
        simp [at_, isCall, Stage.old?]
      split
      · next rootedAt =>
          have remembered := (owned.endCall id).rememberNodeKey
            (owned.loose_endCall isOld) workspaceId node.id node.keyEpoch
            rootedAt
          refine ⟨remembered.1, Frame.trans
            ((Frame.endCall memory id).mono fun _ => .inl)
            (remembered.2.mono ?_)⟩
          rintro site rfl
          exact .inr ⟨_, isCall, rfl⟩
      · have ended := owned.endOwn (at_rewrapping isCall rfl)
        exact ⟨ended.1, ended.2.mono fun _ => .inl⟩
  · exact ⟨owned, .refl memory _⟩

/-- A rekeyed node leaves every cell owned, its own place apart. -/
theorem Owned.rekeyed
    (owned : memory.Owned)
    (id : Nat)
    (done : Bool) :
    (memory.rekeyed id done).Owned ∧
      Frame memory (memory.rekeyed id done) fun site =>
        site = .call id ∨ ∃ call, memory.calls.get? id = some call ∧
          site = .pending call.place := by
  unfold Memory.rekeyed
  split
  · next workspaceId node target fresh old rootedAt isCall =>
      have isOld : memory.at_ (.call id, false) = some old := by
        simp [at_, isCall, Stage.old?]
      have isFresh : memory.at_ (.call id, true) = some fresh := by
        simp [at_, isCall, Stage.fresh?]
      have differ : fresh ≠ old := by
        rintro rfl
        cases owned.alone isOld isFresh
      split
      · refine ⟨(owned.endCall id).setPending (owned.loose_endCall isFresh)
          (owned.loose_endCall isOld) differ _ _, Frame.trans
            ((Frame.endCall memory id).mono fun _ => .inl)
            ((Frame.setPending (owned.endCall id) _ _ _).mono ?_)⟩
        rintro site rfl
        exact .inr ⟨_, isCall, rfl⟩
      · have ended := owned.endOwn (at_rekeying isCall rfl)
        exact ⟨ended.1, ended.2.mono fun _ => .inl⟩
  · exact ⟨owned, .refl memory _⟩

/-- Where a commit of one node writes. -/
def commitSites
    (memory : Memory V)
    (workspaceId nodeId : String) :
    List Site :=
  [.pending (slot workspaceId nodeId),
    .held (memory.prevPool workspaceId) (slot workspaceId nodeId),
    .held (memory.nodePool workspaceId) (slot workspaceId nodeId)]

/-- Committing a node leaves every cell owned, its sites apart. -/
theorem Owned.commitOne_sites
    (owned : memory.Owned)
    (workspaceId nodeId : String) :
    (commitOne workspaceId memory nodeId).Owned ∧
      Frame memory (commitOne workspaceId memory nodeId)
        (· ∈ memory.commitSites workspaceId nodeId) := by
  unfold Memory.commitOne
  split
  · exact ⟨owned, .refl memory _⟩
  · next pending isPending =>
      have isFresh : memory.at_ (.pending (slot workspaceId nodeId), true) =
          some pending.fresh := by
        simp [at_, isPending]
      have isOld : memory.at_ (.pending (slot workspaceId nodeId), false) =
          some pending.old := by
        simp [at_, isPending]
      have differ : pending.old ≠ pending.fresh := by
        intro same
        rw [same] at isOld
        cases owned.alone isOld isFresh
      have taken := owned.takePending (slot workspaceId nodeId)
      have looseOld := owned.loose_takePending isOld
      have looseFresh := owned.loose_takePending isFresh
      have second := taken.hold (memory.prevPool workspaceId)
        (slot workspaceId nodeId)
        { cell := pending.old, epoch := pending.oldEpoch, own := true } looseOld
      have third := second.rememberNodeKey
        (loose_hold looseFresh _ _ _ differ) workspaceId nodeId pending.epoch
        pending.rootedAt
      refine ⟨third.1, Frame.trans (Frame.trans
        ((Frame.takePending memory _).mono ?_)
        ((Frame.hold taken _ _ _).mono ?_)) (third.2.mono ?_)⟩
      · rintro site rfl
        exact mem_cons_self
      · rintro site rfl
        exact mem_cons_of_mem _ mem_cons_self
      · rintro site rfl
        exact mem_cons_of_mem _
          (mem_cons_of_mem _ mem_cons_self)

theorem Owned.commitOne
    (owned : memory.Owned)
    (workspaceId nodeId : String) :
    (Memory.commitOne workspaceId memory nodeId).Owned ∧
      Frame memory (Memory.commitOne workspaceId memory nodeId)
        (·.place? = some (slot workspaceId nodeId)) := by
  obtain ⟨after, frame⟩ := owned.commitOne_sites workspaceId nodeId
  refine ⟨after, frame.mono fun site member => ?_⟩
  simp only [commitSites, mem_cons, not_mem_nil, or_false] at member
  rcases member with rfl | rfl | rfl <;> rfl

theorem Owned.dropOne
    (owned : memory.Owned)
    (workspaceId nodeId : String) :
    (dropOne workspaceId memory nodeId).Owned ∧
      Frame memory (dropOne workspaceId memory nodeId)
        (· = .pending (slot workspaceId nodeId)) := by
  have zeroed : Frame memory
      (memory.zero (memory.pendingAt (slot workspaceId nodeId)))
      (· = .pending (slot workspaceId nodeId)) :=
    .zero owned _ fun cell member => .inr
      ⟨_, (placed_of_pendingAt member).choose, rfl,
        (placed_of_pendingAt member).choose_spec⟩
  exact ⟨owned.takePending _, zeroed.trans (.takePending
    (memory.zero (memory.pendingAt (slot workspaceId nodeId))) _)⟩

/-- Dropping pending keys leaves every other cell owned. -/
theorem Owned.dropPendingWhere
    (owned : memory.Owned)
    (test : String → Bool) :
    (memory.dropPendingWhere test).Owned ∧
      Frame memory (memory.dropPendingWhere test)
        (·.pendingWhere test = true) := by
  refine ⟨owned.fewer fun isAt => ?_, ?_⟩
  · rw [at_dropPendingWhere] at isAt
    exact (Option.ite_none_left_eq_some.mp isAt).2
  · have spent : ∀ cell ∈ (memory.pendingNodeKeys.keep test).values.flatMap
        both, memory.Loose cell ∨ ∃ site fresh,
          site.pendingWhere test = true ∧
            memory.at_ (site, fresh) = some cell := by
      intro cell member
      obtain ⟨pending, listed, isCell⟩ := mem_flatMap.mp member
      obtain ⟨place, isPending⟩ := mem_values.mp listed
      rw [get?_keep, Option.ite_none_right_eq_some] at isPending
      obtain ⟨passes, isPending⟩ := isPending
      refine .inr ⟨.pending place, ?_⟩
      rcases mem_pair.mp isCell with rfl | rfl
      · exact ⟨true, passes, by simp [at_, isPending]⟩
      · exact ⟨false, passes, by simp [at_, isPending]⟩
    have zeroed := Frame.zero owned _ spent
    refine ⟨fun _ => rfl, ?_, fun _ => rfl, zeroed.contents⟩
    intro place spared
    refine (get?_keep _ _ _).trans (if_pos ?_)
    simpa [Site.pendingWhere] using spared

/-- Dropping held keys leaves every other cell owned. -/
theorem Owned.dropHeldWhere
    (owned : memory.Owned)
    (test : String → Bool) :
    (memory.dropHeldWhere test).Owned ∧
      Frame memory (memory.dropHeldWhere test)
        (·.heldWhere test = true) := by
  refine ⟨owned.fewer fun isAt => ?_, ?_⟩
  · rw [at_dropHeldWhere] at isAt
    exact (Option.ite_none_left_eq_some.mp isAt).2
  · have spent : ∀ cell ∈ [Pool.ownNodeKeys, .guestNodeKeys, .ownPrevNodeKeys,
        .guestPrevNodeKeys].flatMap fun pool =>
          ((memory.pools pool).keep test).values.map HeldCell.cell,
        memory.Loose cell ∨ ∃ site fresh, site.heldWhere test = true ∧
          memory.at_ (site, fresh) = some cell := by
      intro cell member
      obtain ⟨pool, _, inPool⟩ := mem_flatMap.mp member
      obtain ⟨held, listed, rfl⟩ := mem_map.mp inPool
      obtain ⟨place, isHeld⟩ := mem_values.mp listed
      rw [get?_keep, Option.ite_none_right_eq_some] at isHeld
      exact .inr ⟨.held pool place, false, isHeld.1,
        by simp [at_, isHeld.2]⟩
    have zeroed := Frame.zero owned _ spent
    refine ⟨?_, fun _ => rfl, fun _ => rfl, zeroed.contents⟩
    intro pool place spared
    refine (get?_keep _ _ _).trans (if_pos ?_)
    simpa [Site.heldWhere] using spared

/-- Moves in turn leave every cell owned and frame the rest. -/
theorem Owned.foldl
    {one : Memory V → α → Memory V}
    {touched : α → Site → Prop}
    (each : ∀ memory item, memory.Owned →
      (one memory item).Owned ∧ Frame memory (one memory item) (touched item))
    (items : List α)
    (owned : memory.Owned) :
    (items.foldl one memory).Owned ∧
      Frame memory (items.foldl one memory) fun site =>
        ∃ item ∈ items, touched item site := by
  induction items generalizing memory with
  | nil =>
    exact ⟨owned, .refl memory _⟩
  | cons item rest inductionHypothesis =>
    obtain ⟨first, firstFrame⟩ := each memory item owned
    obtain ⟨whole, restFrame⟩ := inductionHypothesis first
    refine ⟨whole, Frame.trans (firstFrame.mono ?_) (restFrame.mono ?_)⟩
    · exact fun site isTouched => ⟨item, mem_cons_self, isTouched⟩
    · rintro site ⟨other, member, isTouched⟩
      exact ⟨other, mem_cons_of_mem _ member, isTouched⟩

/-- The places a move may write. -/
def touches (memory : Memory V) : Move V → Site → Prop
  | .begins id _ _ _ | .resumes id _ _ => (· = .call id)
  | .wrapped id _ => fun site =>
    site = .call id ∨ ∃ call, memory.calls.get? id = some call ∧
      site = .held (memory.nodePool call.workspaceId) call.place
  | .rekeyed id _ => fun site =>
    site = .call id ∨ ∃ call, memory.calls.get? id = some call ∧
      site = .pending call.place
  | .commits workspaceId nodeIds => fun site =>
    ∃ nodeId ∈ nodeIds, site.place? = some (slot workspaceId nodeId)
  | .drops workspaceId nodeIds => fun site =>
    ∃ nodeId ∈ nodeIds, site = .pending (slot workspaceId nodeId)
  | .dropsAll workspaceId => (·.pendingWhere (isUnder workspaceId) = true)
  | .holds workspaceId nodeId _ _ _ =>
    (· = .held (memory.nodePool workspaceId) (slot workspaceId nodeId))
  | .holdsPrevious workspaceId nodeId _ _ _ =>
    (· = .held (memory.prevPool workspaceId) (slot workspaceId nodeId))
  | .dropsHeld test => (·.heldWhere test = true)
  | .dropsPending test => (·.pendingWhere test = true)
  | .others _ => fun _ => False

/-- Every move leaves every cell owned and frames the rest. -/
theorem Owned.step
    (owned : memory.Owned)
    (move : Move V) :
    (memory.step move).Owned ∧
      Frame memory (memory.step move) (memory.touches move) := by
  cases move with
  | begins id workspaceId node target =>
    exact owned.begins id workspaceId node target
  | resumes id opened fresh =>
    exact owned.resumes id opened fresh
  | wrapped id done =>
    exact owned.wrapped id done
  | rekeyed id done =>
    exact owned.rekeyed id done
  | commits workspaceId nodeIds =>
    exact Owned.foldl (fun _ nodeId owned =>
      owned.commitOne workspaceId nodeId) nodeIds owned
  | drops workspaceId nodeIds =>
    exact Owned.foldl (fun _ nodeId owned =>
      owned.dropOne workspaceId nodeId) nodeIds owned
  | dropsAll workspaceId =>
    exact owned.dropPendingWhere (isUnder workspaceId)
  | holds workspaceId nodeId key epoch rootedAt =>
    have held := (owned.put key).rememberNodeKey (owned.loose_made key)
      workspaceId nodeId epoch rootedAt
    exact ⟨held.1, Frame.trans (.put owned key _) held.2⟩
  | holdsPrevious workspaceId nodeId key epoch own =>
    exact ⟨(owned.put key).hold _ _ _ (owned.loose_made key),
      Frame.trans (.put owned key _) (.hold (owned.put key) _ _ _)⟩
  | dropsHeld test =>
    exact owned.dropHeldWhere test
  | dropsPending test =>
    exact owned.dropPendingWhere test
  | others rest =>
    exact ⟨owned, fun _ => rfl, fun _ => rfl, fun _ => rfl,
      fun _ _ => rfl⟩

theorem owned_start (V : Vault) : (start V).Owned where
  below := by
    rintro ⟨site, fresh⟩ cell isAt
    cases site <;> cases fresh <;> cases isAt
  alone := by
    rintro ⟨site, fresh⟩ other cell isAt
    cases site <;> cases fresh <;> cases isAt

theorem Owned.run
    (owned : memory.Owned)
    (moves : List (Move V)) :
    (Runs.run Memory.step memory moves).Owned :=
  Runs.keeps_of_step Memory.Owned (fun _ move owned => (owned.step move).1)
    moves owned

theorem Owned.frame_run
    (owned : memory.Owned)
    {moves : List (Move V)}
    {site : Site}
    (spared : Runs.Each Memory.step (fun memory move => ¬ memory.touches move site)
      memory moves) :
    Frame memory (Runs.run Memory.step memory moves) (· ≠ site) := by
  induction moves generalizing memory with
  | nil =>
    exact .refl memory _
  | cons move rest inductionHypothesis =>
    obtain ⟨next, frame⟩ := owned.step move
    refine Frame.trans (frame.mono ?_) (inductionHypothesis next spared.2)
    rintro other isTouched rfl
    exact spared.1 isTouched

end Memory

end Worker

end HushOS
