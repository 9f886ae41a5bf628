import HushOS.Worker.Committing
import HushOS.Worker.Families

namespace HushOS

open Toolkit List OrderedMap

namespace Worker

/-!
# What committed chains list

The rosters of a chain committed for a family begin with those of every chain
committed before it, so the rows they list for an area do too (`Carries`).
The chain committed now lists what the floor does, and what the ledger holds
as an area's write version is what that chain lists (`Ratchet`).
-/

section

variable {P : Primitives}

/-- A later chain lists for every area what an earlier one does, and more. -/
structure Carries (earlier later : Accepted P) : Prop where
  keys : ∀ workspaceId, earlier.val.areaKeys.listAt workspaceId <+:
    later.val.areaKeys.listAt workspaceId
  roots : ∀ workspaceId, earlier.val.areaRoots.listAt workspaceId <+:
    later.val.areaRoots.listAt workspaceId
  listed : ∀ {workspaceId : String},
    workspaceId ∈ earlier.val.areaKeys.keys →
      workspaceId ∈ later.val.areaKeys.keys

theorem Carries.refl (chain : Accepted P) : Carries chain chain :=
  ⟨fun _ => prefix_rfl, fun _ => prefix_rfl, fun listed => listed⟩

/-- A chain with the same digests first carries on the earlier lists. -/
theorem carries_of_begins
    {earlier later : Accepted P}
    {messages : Set Bytes}
    (apart : Set.InjOn P.sha256 messages)
    (stated : earlier.statements ⊆ messages)
    (laterStated : later.statements ⊆ messages)
    (begins : earlier.val.rosterDigests <+: later.val.rosterDigests) :
    Carries earlier later := by
  obtain ⟨history, isHistory⟩ := earlier.property
  obtain ⟨laterHistory, isLater⟩ := later.property
  have rows := rows_begin isHistory isLater apart stated laterStated
    (getElem?_of_begins begins
      (getElem?_of_getLast? earlier.shaped.version earlier.shaped.digest))
  have order := isHistory.areasInOrder
  have laterOrder := isLater.areasInOrder
  have keyRows (workspaceId : String) :
      keyRowsOf workspaceId (rowsOf history) <+:
        keyRowsOf workspaceId (rowsOf laterHistory) := by
    rw [rows, keyRowsOf_append]
    exact prefix_append _ _
  exact {
    keys := by
      intro workspaceId
      rw [order.keys, laterOrder.keys]
      exact (keyRows workspaceId).map _
    roots := by
      intro workspaceId
      rw [order.roots, laterOrder.roots]
      exact (keyRows workspaceId).map _
    listed := by
      intro workspaceId
      rw [order.listed, laterOrder.listed]
      intro listed empty
      have begin_ := keyRows workspaceId
      rw [empty, prefix_nil] at begin_
      exact listed begin_ }

end

variable {V : Vault}

/-- The statements of every chain a run is given to commit. -/
def statementsGiven (ops : List (Op V)) : Set Bytes :=
  { statement | ∃ chain, Op.commit chain ∈ ops ∧
      statement ∈ chain.statements }

/-- What is held of every family: the chain stands at the floor. -/
structure Ratchet (messages : Set Bytes) (ledger : Ledger V) : Prop where
  floor : ∀ {groupId : String} {floor : Accepted V.toPrimitives},
    ledger.floors.get? groupId = some floor → floor.statements ⊆ messages
  level : ∀ {groupId : String} {chain : Accepted V.toPrimitives},
    ledger.chains.get? groupId = some chain →
      chain.statements ⊆ messages ∧
        ∃ floor, ledger.floors.get? groupId = some floor ∧
          chain.val.rosterDigests = floor.val.rosterDigests
  areaWrite : ∀ {groupId workspaceId : String} {version : Nat},
    Slashless groupId → Slashless workspaceId →
    ledger.areaWrite.get? (areaSlot groupId workspaceId) = some version →
      ∃ chain, ledger.chains.get? groupId = some chain ∧
        areaWriteVersion chain workspaceId = some version

namespace Ledger

/-- Committing areas writes each one's version from the chain. -/
theorem get?_areaWrite_commitAreas
    {chain : Accepted V.toPrimitives}
    (areas : List String)
    (ledger : Ledger V)
    {groupId workspaceId : String}
    (isGroup : Slashless groupId)
    (isWorkspace : Slashless workspaceId) :
    (areas.foldl (commitArea chain) ledger).areaWrite.get?
        (areaSlot groupId workspaceId) =
      if groupId = chain.val.groupId ∧ workspaceId ∈ areas then
        areaWriteVersion chain workspaceId
      else
        ledger.areaWrite.get? (areaSlot groupId workspaceId) := by
  induction areas generalizing ledger with
  | nil =>
    simp
  | cons area rest inductionHypothesis =>
    have one : (commitArea chain ledger area).areaWrite.get?
        (areaSlot groupId workspaceId) =
        if groupId = chain.val.groupId ∧ workspaceId = area then
          areaWriteVersion chain area
        else
          ledger.areaWrite.get? (areaSlot groupId workspaceId) := by
      have place : areaSlot groupId workspaceId =
          areaSlot chain.val.groupId area ↔
            groupId = chain.val.groupId ∧ workspaceId = area :=
        Slots.slashed_inj isGroup isWorkspace
      unfold commitArea
      dsimp only
      split
      · next unlisted =>
          rw [get?_erase, unlisted]
          simp only [place]
      · next version listed =>
          rw [get?_set, listed]
          simp only [place]
    rw [foldl_cons, inductionHypothesis, one]
    by_cases isGroupId : groupId = chain.val.groupId
    · by_cases isArea : workspaceId = area
      · subst isArea
        simp [isGroupId]
      · simp [isGroupId, isArea]
    · simp [isGroupId]

end Ledger

namespace Ratchet

variable {messages : Set Bytes} {ledger after : Ledger V}

theorem same
    (ratchet : Ratchet messages ledger)
    (chains : after.chains = ledger.chains)
    (floors : after.floors = ledger.floors)
    (areaWrite : after.areaWrite = ledger.areaWrite) :
    Ratchet messages after where
  floor := by
    rw [floors]
    exact ratchet.floor
  level := by
    rw [chains, floors]
    exact ratchet.level
  areaWrite := by
    rw [chains, areaWrite]
    exact ratchet.areaWrite

theorem begins
    (ratchet : Ratchet messages ledger)
    (apart : Set.InjOn V.sha256 messages)
    {chain : Accepted V.toPrimitives}
    (stated : chain.statements ⊆ messages)
    (committed : ledger.commit chain = .ok after)
    {floor : Accepted V.toPrimitives}
    (isFloor : ledger.floors.get? chain.val.groupId = some floor) :
    floor.val.rosterDigests <+: chain.val.rosterDigests :=
  digests_begin apart (ratchet.floor isFloor) stated
    (overtakenBy_eq_none.mp
      ((Ledger.commit_eq_ok committed).1 floor isFloor)).2.1

/-- A commit only moves the ratchet on. -/
theorem commit
    (ratchet : Ratchet messages ledger)
    (apart : Set.InjOn V.sha256 messages)
    {chain : Accepted V.toPrimitives}
    (stated : chain.statements ⊆ messages)
    (committed : ledger.commit chain = .ok after) :
    Ratchet messages after := by
  obtain ⟨_, chains, floors⟩ := Ledger.commit_eq_ok committed
  have floorOf {groupId : String} {floor : Accepted V.toPrimitives}
      (isFloor : after.floors.get? groupId = some floor) :
      floor = chain ∨ ledger.floors.get? groupId = some floor := by
    rw [floors] at isFloor
    split at isFloor
    · rw [get?_set] at isFloor
      split at isFloor
      · exact .inl (Option.some.inj isFloor).symm
      · exact .inr isFloor
    · exact .inr isFloor
  have ofChain : ∃ floor,
      after.floors.get? chain.val.groupId = some floor ∧
        chain.val.rosterDigests = floor.val.rosterDigests := by
    rw [floors]
    split
    · exact ⟨chain, by rw [get?_set, if_pos rfl], rfl⟩
    · next stays =>
        cases isFloor : ledger.floors.get? chain.val.groupId with
        | none =>
          simp [Ledger.movesFloor, isFloor] at stays
        | some floor =>
          refine ⟨floor, rfl, ?_⟩
          have begin_ := ratchet.begins apart stated committed isFloor
          refine (begin_.eq_of_length_le ?_).symm
          rw [chain.shaped.version, floor.shaped.version]
          simp only [Ledger.movesFloor, isFloor, Option.all_some,
            Bool.or_eq_true, decide_eq_true_eq, not_or, Nat.not_lt] at stays
          exact stays.1
  have elsewhere {groupId : String} (other : groupId ≠ chain.val.groupId) :
      after.floors.get? groupId = ledger.floors.get? groupId := by
    rw [floors]
    split
    · rw [get?_set, if_neg other]
    · rfl
  exact {
    floor := by
      intro groupId floor isFloor
      rcases floorOf isFloor with rfl | before
      · exact stated
      · exact ratchet.floor before
    level := by
      intro groupId held isHeld
      rw [chains, get?_set] at isHeld
      split at isHeld
      · next isGroup =>
          obtain rfl := Option.some.inj isHeld
          exact ⟨stated, isGroup ▸ ofChain⟩
      · next other =>
          rw [elsewhere other]
          exact ratchet.level isHeld
    areaWrite := by
      intro groupId workspaceId version isGroup isWorkspace isWritten
      rw [Ledger.commit_parts committed,
        Ledger.get?_areaWrite_commitAreas _ _ isGroup isWorkspace]
        at isWritten
      rw [chains, get?_set]
      split at isWritten
      · next here =>
          exact ⟨chain, if_pos here.1, isWritten⟩
      · next notHere =>
          obtain ⟨held, isHeld, isVersion⟩ :=
            ratchet.areaWrite isGroup isWorkspace isWritten
          by_cases ofGroup : groupId = chain.val.groupId
          · -- An area an earlier chain lists is listed by every later one.
            subst ofGroup
            obtain ⟨heldStated, floor, isFloor, level⟩ :=
              ratchet.level isHeld
            have begin_ := ratchet.begins apart stated committed isFloor
            rw [← level] at begin_
            have carries := carries_of_begins apart heldStated stated begin_
            have listed : workspaceId ∈ held.val.areaKeys.keys := by
              unfold areaWriteVersion at isVersion
              split at isVersion
              · simp at isVersion
              · rw [Option.map_eq_some_iff] at isVersion
                obtain ⟨commitments, areListed, _⟩ := isVersion
                unfold areaCommitments at areListed
                split at areListed
                · exact OrderedMap.mem_keys.mpr ⟨_, areListed⟩
                · simp at areListed
            exact absurd ⟨rfl, carries.listed listed⟩ notHere
          · exact ⟨held, by rw [if_neg ofGroup]; exact isHeld, isVersion⟩ }

/-- An uncommit leaves the ratchet where it is. -/
theorem uncommit
    (ratchet : Ratchet messages ledger)
    (gone : String) :
    Ratchet messages (ledger.uncommit gone) where
  floor := ratchet.floor
  level := by
    intro groupId chain isChain
    have found : (ledger.chains.erase gone).get? groupId = some chain :=
      isChain
    rw [get?_erase] at found
    split at found
    · simp at found
    · exact ratchet.level found
  areaWrite := by
    intro groupId workspaceId version isGroup isWorkspace isWritten
    have found : (ledger.areaWrite.keep fun place =>
        !isUnder gone place).get? (areaSlot groupId workspaceId) =
          some version := isWritten
    rw [get?_keep] at found
    split at found
    · next notUnder =>
        have other : groupId ≠ gone := by
          rw [Bool.not_eq_true', ← Bool.not_eq_true, isUnder, areaSlot,
            Slots.begins_slashed isGroup isWorkspace] at notUnder
          exact notUnder
        obtain ⟨chain, isChain, isVersion⟩ :=
          ratchet.areaWrite isGroup isWorkspace found
        refine ⟨chain, ?_, isVersion⟩
        show (ledger.chains.erase gone).get? groupId = some chain
        rw [get?_erase, if_neg other]
        exact isChain
    · simp at found

/-- Forgetting a group leaves the other groups' ratchet. -/
theorem forgetGroup
    (ratchet : Ratchet messages ledger)
    (gone : String) :
    Ratchet messages (ledger.forgetGroup gone) := by
  have dropped := SameFamilies.foldl
    (fun ledger : Ledger V => ledger.sameFamilies_dropWorkspace)
    (ledger.areasOf gone) (ledger.kept gone)
  have start := ratchet.same dropped.chains dropped.floors dropped.areaWrite
  have withdrawn := start.uncommit gone
  exact {
    floor := by
      intro groupId floor isFloor
      have found : (OrderedMap.erase _ gone).get? groupId = some floor :=
        isFloor
      rw [get?_erase] at found
      split at found
      · simp at found
      · exact start.floor found
    level := by
      intro groupId chain isChain
      have found : (OrderedMap.erase _ gone).get? groupId = some chain :=
        isChain
      rw [get?_erase] at found
      split at found
      · simp at found
      · next other =>
          obtain ⟨stated, floor, isFloor, level⟩ := start.level found
          refine ⟨stated, floor, ?_, level⟩
          show (OrderedMap.erase _ gone).get? groupId = some floor
          rw [get?_erase, if_neg other]
          exact isFloor
    areaWrite := withdrawn.areaWrite }

/-- Every operation only moves the ratchet on. -/
theorem step
    (ratchet : Ratchet messages ledger)
    (apart : Set.InjOn V.sha256 messages)
    {op : Op V}
    (stated : ∀ chain, op = .commit chain → chain.statements ⊆ messages) :
    Ratchet messages (ledger.step op) := by
  by_cases onKeys : op.onKeys = true
  · have same := ledger.sameFamilies_step onKeys
    exact ratchet.same same.chains same.floors same.areaWrite
  · cases op with
    | commit chain =>
      simp only [Ledger.step]
      split
      · next committed =>
          exact ratchet.commit apart (stated chain rfl) committed
      · exact ratchet
    | uncommit gone =>
      exact ratchet.uncommit gone
    | owe _ | kept _ | clear =>
      exact ratchet.same rfl rfl rfl
    | forgetGroup gone =>
      exact ratchet.forgetGroup gone
    | forgetAllGroups =>
      have forgotten (groupIds : List String) {start : Ledger V}
          (starts : Ratchet messages start) :
          Ratchet messages (groupIds.foldl Ledger.forgetGroup start) := by
        induction groupIds generalizing start with
        | nil =>
          exact starts
        | cons groupId rest inductionHypothesis =>
          exact inductionHypothesis (starts.forgetGroup groupId)
      exact forgotten _ (ratchet.same rfl rfl rfl)
    | openArea groupId workspaceId idSeed version key served =>
      simp only [Ledger.step]
      cases isOpened : ledger.openArea groupId workspaceId idSeed version
          key served with
      | error reason =>
        exact ratchet
      | ok found =>
        obtain ⟨block, after⟩ := found
        obtain ⟨_, _, _, rfl, _⟩ := Ledger.openArea_eq_ok.mp isOpened
        exact ratchet.same rfl rfl rfl
    | openPersonalWorkspace workspaceId version key =>
      simp only [Ledger.step, Ledger.openPersonalWorkspace]
      split
      · next after opened =>
          simp only [bind_eq_ok, exists_unit, Except.ok.injEq] at opened
          obtain ⟨_, rfl⟩ := opened
          exact ratchet.same rfl rfl rfl
      · exact ratchet
    | _ =>
      exact absurd rfl onKeys

theorem start : Ratchet messages (createAreaLedger V) where
  floor := by simp [createAreaLedger]
  level := by simp [createAreaLedger]
  areaWrite := by simp [createAreaLedger]

end Ratchet

end Worker

end HushOS
