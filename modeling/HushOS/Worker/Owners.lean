import HushOS.Worker.Memory

namespace HushOS

open Toolkit List OrderedMap

namespace Worker

/-!
# Whose buffer each key is

No buffer is in two places, whatever moves come, so what a move zeroes is what
it takes out (`Memory.Owned`, `Frame`): the keys elsewhere read as they did.
-/

/-- A place that has buffers: a map's entry, or a call in flight. -/
inductive Site where
  | held (pool : Pool) (place : String)
  | pending (place : String)
  | call (id : Nat)
  deriving DecidableEq

/-- The place in its map of what a site holds. -/
def Site.place? : Site → Option String
  | .held _ place => some place
  | .pending place => some place
  | .call _ => none

/-- Places of pending keys that pass a test. -/
def Site.pendingWhere (test : String → Bool) : Site → Bool
  | .pending place => test place
  | _ => false

/-- Places of held keys that pass a test. -/
def Site.heldWhere (test : String → Bool) : Site → Bool
  | .held _ place => test place
  | _ => false

variable {V : Vault}

namespace Memory

/-- The buffer at a place: the fresh key's, or the other. -/
def at_ (memory : Memory V) : Site × Bool → Option Nat
  | (.held pool place, false) =>
    ((memory.pools pool).get? place).map HeldCell.cell
  | (.held _ _, true) => none
  | (.pending place, true) =>
    (memory.pendingNodeKeys.get? place).map PendingCells.fresh
  | (.pending place, false) =>
    (memory.pendingNodeKeys.get? place).map PendingCells.old
  | (.call id, true) =>
    (memory.calls.get? id).bind fun call => call.stage.fresh?
  | (.call id, false) =>
    (memory.calls.get? id).bind fun call => call.stage.old?

/-- Every buffer is in one place. -/
abbrev Owned (memory : Memory V) : Prop :=
  Cells.Owned memory.at_ memory.made

/-- A buffer that is in no place. -/
abbrev Loose (memory : Memory V) (cell : Nat) : Prop :=
  Cells.Loose memory.at_ memory.made cell

variable (memory : Memory V)

@[simp] theorem at_zero (gone : List Nat) :
    (memory.zero gone).at_ = memory.at_ := rfl

@[simp] theorem at_put (key : Key) :
    (memory.put key).at_ = memory.at_ := rfl

theorem at_hold
    (pool : Pool)
    (place : String)
    (held : HeldCell)
    (owner : Site × Bool) :
    (memory.hold pool place held).at_ owner =
      if owner = (.held pool place, false) then
        some held.cell
      else
        memory.at_ owner := by
  obtain ⟨site, fresh⟩ := owner
  cases site with
  | held other otherPlace =>
    cases fresh with
    | true =>
      simp [at_]
    | false =>
      simp only [at_, hold]
      by_cases samePool : other = pool
      · by_cases samePlace : otherPlace = place
        · simp [samePool, samePlace, get?_set]
        · simp [samePool, samePlace, get?_set]
      · simp [samePool]
  | pending | call =>
    cases fresh <;> rfl

theorem at_setPending
    (workspaceId nodeId : String)
    (pending : PendingCells)
    (owner : Site × Bool) :
    (memory.setPending workspaceId nodeId pending).at_ owner =
      if owner.1 = .pending (slot workspaceId nodeId) then
        some (if owner.2 then pending.fresh else pending.old)
      else
        memory.at_ owner := by
  obtain ⟨site, fresh⟩ := owner
  cases site with
  | pending place =>
    by_cases same : place = slot workspaceId nodeId
    · cases fresh <;> simp [at_, setPending, get?_set, same]
    · cases fresh <;> simp [at_, setPending, get?_set, same]
  | held | call =>
    cases fresh <;> rfl

theorem at_takePending (place : String) (owner : Site × Bool) :
    (memory.takePending place).at_ owner =
      if owner.1 = .pending place then none else memory.at_ owner := by
  obtain ⟨site, fresh⟩ := owner
  cases site with
  | pending other =>
    by_cases same : other = place
    · cases fresh <;> simp [at_, takePending, get?_erase, same]
    · cases fresh <;> simp [at_, takePending, get?_erase, same]
  | held | call =>
    cases fresh <;> rfl

theorem at_endCall (id : Nat) (owner : Site × Bool) :
    (memory.endCall id).at_ owner =
      if owner.1 = .call id then none else memory.at_ owner := by
  obtain ⟨site, fresh⟩ := owner
  cases site with
  | call other =>
    by_cases same : other = id
    · cases fresh <;> simp [at_, endCall, get?_erase, same]
    · cases fresh <;> simp [at_, endCall, get?_erase, same]
  | held | pending =>
    cases fresh <;> rfl

theorem at_await
    (id : Nat)
    (call : Call)
    (stage : Stage)
    (owner : Site × Bool) :
    (memory.await id call stage).at_ owner =
      if owner.1 = .call id then
        if owner.2 then stage.fresh? else stage.old?
      else
        memory.at_ owner := by
  obtain ⟨site, fresh⟩ := owner
  cases site with
  | call other =>
    by_cases same : other = id
    · cases fresh <;> simp [at_, await, get?_set, same]
    · cases fresh <;> simp [at_, await, get?_set, same]
  | held | pending =>
    cases fresh <;> rfl

theorem at_dropPendingWhere (test : String → Bool) (owner : Site × Bool) :
    (memory.dropPendingWhere test).at_ owner =
      if owner.1.pendingWhere test then none else memory.at_ owner := by
  obtain ⟨site, fresh⟩ := owner
  cases site with
  | pending place =>
    cases passes : test place <;> cases fresh <;>
      simp [at_, dropPendingWhere, get?_keep, passes,
        Site.pendingWhere]
  | held | call =>
    cases fresh <;> rfl

theorem at_dropHeldWhere (test : String → Bool) (owner : Site × Bool) :
    (memory.dropHeldWhere test).at_ owner =
      if owner.1.heldWhere test then none else memory.at_ owner := by
  obtain ⟨site, fresh⟩ := owner
  cases site with
  | held pool place =>
    cases passes : test place <;> cases fresh <;>
      simp [at_, dropHeldWhere, get?_keep, passes,
        Site.heldWhere]
  | pending | call =>
    cases fresh <;> rfl

variable {memory} {cell : Nat}

theorem Owned.loose_made
    (owned : memory.Owned)
    (key : Key) :
    (memory.put key).Loose memory.made where
  below := Nat.lt_succ_self memory.made
  none_ := fun _ isAt => Nat.lt_irrefl _ (owned.below isAt)

theorem Owned.put
    (owned : memory.Owned)
    (key : Key) :
    (memory.put key).Owned :=
  owned.given (Nat.le_succ memory.made) (fun _ => none) .inl
    fun given => nomatch given

theorem Owned.hold
    (owned : memory.Owned)
    (pool : Pool)
    (place : String)
    (held : HeldCell)
    (loose : memory.Loose held.cell) :
    (memory.hold pool place held).Owned := by
  refine owned.given (Nat.le_refl _)
    (fun owner => if owner = (.held pool place, false) then some held.cell
      else none) ?_ ?_
  · intro owner cell isAt
    rw [at_hold] at isAt
    split at isAt
    · next isOwner =>
        cases isAt
        exact .inr ⟨if_pos isOwner, loose⟩
    · exact .inl isAt
  · intro owner other cell given givenToo
    rw [Option.ite_none_right_eq_some] at given givenToo
    rw [given.1, givenToo.1]

/-- Setting a pending key of loose cells leaves every cell owned. -/
theorem Owned.setPending
    (owned : memory.Owned)
    {pending : PendingCells}
    (fresh : memory.Loose pending.fresh)
    (old : memory.Loose pending.old)
    (differ : pending.fresh ≠ pending.old)
    (workspaceId nodeId : String) :
    (memory.setPending workspaceId nodeId pending).Owned := by
  refine owned.given (Nat.le_refl _)
    (fun owner => if owner.1 = .pending (slot workspaceId nodeId) then
      some (if owner.2 then pending.fresh else pending.old) else none) ?_ ?_
  · intro owner cell isAt
    rw [at_setPending] at isAt
    split at isAt
    · next isOwner =>
        cases isAt
        refine .inr ⟨if_pos isOwner, ?_⟩
        cases owner.2 with
        | true => exact fresh
        | false => exact old
    · exact .inl isAt
  · rintro ⟨site, isFresh⟩ ⟨other, isFreshToo⟩ cell given givenToo
    rw [Option.ite_none_right_eq_some, Option.some.injEq] at given givenToo
    obtain ⟨isSite, isCell⟩ := given
    obtain ⟨isSiteToo, isCellToo⟩ := givenToo
    have sameSite : site = other := isSite.trans isSiteToo.symm
    rw [sameSite]
    cases isFresh <;> cases isFreshToo <;>
      simp only [reduceIte, Bool.false_eq_true] at isCell isCellToo ⊢
    · exact absurd (isCellToo.trans isCell.symm) differ
    · exact absurd (isCell.trans isCellToo.symm) differ

/-- A call that waits on loose cells leaves every cell owned. -/
theorem Owned.await
    (owned : memory.Owned)
    {id : Nat}
    {stage : Stage}
    (old : ∀ {cell}, stage.old? = some cell →
      memory.at_ (.call id, false) = some cell ∨ memory.Loose cell)
    (fresh : ∀ {cell}, stage.fresh? = some cell → memory.Loose cell)
    (differ : ∀ {cell}, stage.old? = some cell → stage.fresh? ≠ some cell)
    (call : Call) :
    (memory.await id call stage).Owned := by
  have moved := memory.at_await id call stage
  refine owned.given (Nat.le_refl _)
    (fun owner => if owner.1 = .call id then
      if owner.2 then stage.fresh? else stage.old? else none) ?_ ?_
  · rintro ⟨site, isFresh⟩ cell isAt
    rw [moved] at isAt
    split at isAt
    · next isOwner =>
        cases isOwner
        cases isFresh with
        | true =>
          exact .inr ⟨by simpa using isAt, fresh (by simpa using isAt)⟩
        | false =>
          have isOld : stage.old? = some cell := by simpa using isAt
          exact (old isOld).imp_right fun loose => ⟨by simpa using isOld,
            loose⟩
    · exact .inl isAt
  · rintro ⟨site, isFresh⟩ ⟨other, isFreshToo⟩ cell given givenToo
    rw [Option.ite_none_right_eq_some] at given givenToo
    obtain ⟨isSite, isCell⟩ := given
    obtain ⟨isSiteToo, isCellToo⟩ := givenToo
    have sameSite : site = other := isSite.trans isSiteToo.symm
    rw [sameSite]
    cases isFresh <;> cases isFreshToo <;>
      simp only [reduceIte, Bool.false_eq_true] at isCell isCellToo ⊢
    · exact absurd isCellToo (differ isCell)
    · exact absurd isCell (differ isCellToo)

theorem Owned.loose_endCall
    (owned : memory.Owned)
    {id : Nat}
    {fresh : Bool}
    (isAt : memory.at_ (.call id, fresh) = some cell) :
    (memory.endCall id).Loose cell where
  below := owned.below isAt
  none_ := by
    intro owner isAtToo
    rw [at_endCall] at isAtToo
    split at isAtToo
    · cases isAtToo
    · next other =>
        exact other (congrArg Prod.fst (owned.alone isAtToo isAt))

variable {place : String}

theorem Owned.loose_takePending
    (owned : memory.Owned)
    {fresh : Bool}
    (isAt : memory.at_ (.pending place, fresh) = some cell) :
    (memory.takePending place).Loose cell where
  below := owned.below isAt
  none_ := by
    intro owner isAtToo
    rw [at_takePending] at isAtToo
    split at isAtToo
    · cases isAtToo
    · next other =>
        exact other (congrArg Prod.fst (owned.alone isAtToo isAt))

theorem Owned.endCall
    (owned : memory.Owned)
    (id : Nat) :
    (memory.endCall id).Owned :=
  owned.fewer fun isAt => by
    rw [at_endCall] at isAt
    exact (Option.ite_none_left_eq_some.mp isAt).2

theorem Owned.takePending
    (owned : memory.Owned)
    (place : String) :
    (memory.takePending place).Owned :=
  owned.fewer fun isAt => by
    rw [at_takePending] at isAt
    exact (Option.ite_none_left_eq_some.mp isAt).2

theorem loose_hold
    (loose : memory.Loose cell)
    (pool : Pool)
    (place : String)
    (held : HeldCell)
    (other : held.cell ≠ cell) :
    (memory.hold pool place held).Loose cell := by
  refine loose.keep (Nat.le_refl _) fun {owner} isAt => ⟨owner, ?_⟩
  rw [at_hold] at isAt
  split at isAt
  · exact absurd (Option.some.inj isAt) other
  · exact isAt

theorem loose_put
    (loose : memory.Loose cell)
    (key : Key) :
    (memory.put key).Loose cell :=
  loose.keep (Nat.le_succ _) fun {owner} isAt => ⟨owner, isAt⟩

theorem cells_zero_of_loose
    (loose : memory.Loose cell)
    {gone : List Nat}
    (placed : ∀ other ∈ gone, ∃ owner, memory.at_ owner = some other) :
    (memory.zero gone).cells cell = memory.cells cell := by
  refine Cells.wipe_of_not_mem fun member => ?_
  obtain ⟨owner, isAt⟩ := placed cell member
  exact loose.none_ owner isAt

theorem placed_of_cellsAt
    {pool : Pool}
    (member : cell ∈ memory.cellsAt pool place) :
    memory.at_ (.held pool place, false) = some cell :=
  Option.mem_toList.mp member

theorem placed_of_pendingAt
    (member : cell ∈ memory.pendingAt place) :
    ∃ fresh, memory.at_ (.pending place, fresh) = some cell := by
  unfold pendingAt at member
  cases isPending : memory.pendingNodeKeys.get? place with
  | none =>
    rw [isPending] at member
    cases member
  | some pending =>
    rw [isPending] at member
    rcases mem_pair.mp member with isFresh | isOld
    · exact ⟨true, by simp [at_, isPending, isFresh]⟩
    · exact ⟨false, by simp [at_, isPending, isOld]⟩

end Memory

/-- Outside the places touched, entries and what their buffers contain stay. -/
structure Frame
    (before after : Memory V)
    (touched : Site → Prop) : Prop where
  pools : ∀ {pool place}, ¬ touched (.held pool place) →
    (after.pools pool).get? place = (before.pools pool).get? place
  pending : ∀ {place}, ¬ touched (.pending place) →
    after.pendingNodeKeys.get? place = before.pendingNodeKeys.get? place
  calls : ∀ {id}, ¬ touched (.call id) →
    after.calls.get? id = before.calls.get? id
  contents : ∀ {site fresh cell}, ¬ touched site →
    before.at_ (site, fresh) = some cell →
      after.cells cell = before.cells cell

namespace Frame

variable {before middle after : Memory V} {touched other more : Site → Prop}

theorem at_
    (frame : Frame before after touched)
    {site : Site}
    (spared : ¬ touched site)
    (fresh : Bool) :
    after.at_ (site, fresh) = before.at_ (site, fresh) := by
  cases site with
  | held pool place =>
    cases fresh <;> simp only [Memory.at_, frame.pools spared]
  | pending place =>
    cases fresh <;> simp only [Memory.at_, frame.pending spared]
  | call id =>
    cases fresh <;> simp only [Memory.at_, frame.calls spared]

theorem mono
    (frame : Frame before after touched)
    (within : ∀ site, touched site → more site) :
    Frame before after more where
  pools spared := frame.pools (mt (within _) spared)
  pending spared := frame.pending (mt (within _) spared)
  calls spared := frame.calls (mt (within _) spared)
  contents spared := frame.contents (mt (within _) spared)

theorem trans
    (first : Frame before middle touched)
    (second : Frame middle after touched) :
    Frame before after touched where
  pools spared := (second.pools spared).trans (first.pools spared)
  pending spared := (second.pending spared).trans (first.pending spared)
  calls spared := (second.calls spared).trans (first.calls spared)
  contents {_ fresh _} spared isAt :=
    (second.contents spared ((first.at_ spared fresh).trans isAt)).trans
      (first.contents spared isAt)

theorem refl (memory : Memory V) (touched : Site → Prop) :
    Frame memory memory touched :=
  ⟨fun _ => rfl, fun _ => rfl, fun _ => rfl, fun _ _ => rfl⟩

variable {memory : Memory V}

theorem zero
    (owned : memory.Owned)
    (touched : Site → Prop)
    {gone : List Nat}
    (spent : ∀ cell ∈ gone, memory.Loose cell ∨
      ∃ site fresh, touched site ∧ memory.at_ (site, fresh) = some cell) :
    Frame memory (memory.zero gone) touched := by
  refine ⟨fun _ => rfl, fun _ => rfl, fun _ => rfl, ?_⟩
  intro site fresh cell spared isAt
  refine Cells.wipe_of_not_mem fun member => ?_
  rcases spent cell member with loose | ⟨other, freshToo, isTouched, isAtToo⟩
  · exact loose.none_ _ isAt
  · have same : site = other :=
      congrArg Prod.fst (owned.alone isAt isAtToo)
    exact spared (same ▸ isTouched)

theorem put
    (owned : memory.Owned)
    (key : Key)
    (touched : Site → Prop) :
    Frame memory (memory.put key) touched := by
  refine ⟨fun _ => rfl, fun _ => rfl, fun _ => rfl, ?_⟩
  intro site fresh cell _ isAt
  exact if_neg (Nat.ne_of_lt (owned.below isAt))

theorem hold
    (owned : memory.Owned)
    (pool : Pool)
    (place : String)
    (held : HeldCell) :
    Frame memory (memory.hold pool place held) (· = .held pool place) := by
  have zeroed := zero owned (· = .held pool place)
    fun cell member => .inr
      ⟨_, false, rfl, Memory.placed_of_cellsAt member⟩
  refine ⟨?_, fun _ => rfl, fun _ => rfl, zeroed.contents⟩
  intro otherPool otherPlace spared
  simp only [Memory.hold]
  split
  · next samePool =>
      subst samePool
      rw [get?_set, if_neg]
      rintro rfl
      exact spared rfl
  · rfl

theorem setPending
    (owned : memory.Owned)
    (workspaceId nodeId : String)
    (pending : PendingCells) :
    Frame memory (memory.setPending workspaceId nodeId pending)
      (· = .pending (slot workspaceId nodeId)) := by
  have zeroed := zero owned (· = .pending (slot workspaceId nodeId))
    fun cell member => .inr
      ⟨_, (Memory.placed_of_pendingAt member).choose, rfl,
        (Memory.placed_of_pendingAt member).choose_spec⟩
  refine ⟨fun _ => rfl, ?_, fun _ => rfl, zeroed.contents⟩
  intro place spared
  refine (get?_set _ _ _ _).trans (if_neg ?_)
  rintro rfl
  exact spared rfl

theorem takePending (memory : Memory V) (place : String) :
    Frame memory (memory.takePending place) (· = .pending place) := by
  refine ⟨fun _ => rfl, ?_, fun _ => rfl, fun _ _ => rfl⟩
  intro other spared
  refine (get?_erase _ _ _).trans (if_neg ?_)
  rintro rfl
  exact spared rfl

theorem endCall (memory : Memory V) (id : Nat) :
    Frame memory (memory.endCall id) (· = .call id) := by
  refine ⟨fun _ => rfl, fun _ => rfl, ?_, fun _ _ => rfl⟩
  intro other spared
  refine (get?_erase _ _ _).trans (if_neg ?_)
  rintro rfl
  exact spared rfl

theorem await (memory : Memory V) (id : Nat) (call : Call) (stage : Stage) :
    Frame memory (memory.await id call stage) (· = .call id) := by
  refine ⟨fun _ => rfl, fun _ => rfl, ?_, fun _ _ => rfl⟩
  intro other spared
  refine (get?_set _ _ _ _).trans (if_neg ?_)
  rintro rfl
  exact spared rfl

end Frame

end Worker

end HushOS
