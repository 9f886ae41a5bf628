import HushOS.Sizes
import HushOS.Worker.Frames

namespace HushOS

open Toolkit List OrderedMap

namespace Worker

/-!
# Families apart

What one family's chains, areas and guard change is never another family's.
An area is one family's by its derived id, so its places in the ledger's maps
are no other family's (`OpensHold`), and the ledger answers for it from those
places alone (`SameArea`, `SameArea.answers`).
-/

variable {V : Vault}

theorem slashless_of_isUuid
    {id : String}
    (isId : isUuid id = true) :
    Slashless id := by
  intro slash
  simp only [isUuid, Bool.and_eq_true, decide_eq_true_eq] at isId
  obtain ⟨index, inside, isSlash⟩ := mem_iff_getElem.mp slash
  have shaped := all_eq_true.mp isId.2 (id.toList[index], index)
    (mem_zipIdx_iff_getElem?.mpr (getElem?_eq_getElem inside))
  rw [isSlash] at shaped
  dsimp only at shaped
  have dash : decide ('/' = '-') = false := by decide
  have hex : isLowerHex '/' = false := by decide
  rw [dash, hex, ite_self] at shaped
  cases shaped

namespace Ledger

/-- Whether a family opened a workspace here as one of its folders. -/
def Opens (ledger : Ledger V) (groupId workspaceId : String) : Prop :=
  ∃ areas, ledger.opened.get? groupId = some areas ∧
    areas.has workspaceId = true

variable {ledger : Ledger V}

theorem mem_openedBy
    {groupId workspaceId : String} :
    groupId ∈ ledger.openedBy workspaceId ↔
      ledger.Opens groupId workspaceId := by
  simp only [openedBy, mem_map, mem_filter, Opens,
    get?_eq_some]
  constructor
  · rintro ⟨⟨_, areas⟩, ⟨member, listed⟩, rfl⟩
    exact ⟨areas, member, listed⟩
  · rintro ⟨areas, member, listed⟩
    exact ⟨(groupId, areas), ⟨member, listed⟩, rfl⟩

/-- An area one family alone opens is opened by that one. -/
theorem openedBy_eq_singleton
    {groupId workspaceId : String}
    (opens : ledger.Opens groupId workspaceId)
    (only : ∀ other, ledger.Opens other workspaceId → other = groupId) :
    ledger.openedBy workspaceId = [groupId] := by
  have nodup : (ledger.openedBy workspaceId).Nodup :=
    ledger.opened.nodup.sublist ((filter_sublist).map Prod.fst)
  have same : ∀ other ∈ ledger.openedBy workspaceId, other = groupId :=
    fun other member => only other (mem_openedBy.mp member)
  cases families : ledger.openedBy workspaceId with
  | nil =>
    have member := mem_openedBy.mpr opens
    simp [families] at member
  | cons first rest =>
    rw [families] at nodup same
    cases rest with
    | nil =>
      rw [same first (by simp)]
    | cons second later =>
      have equal := (same second (by simp)).trans
        (same first (by simp)).symm
      simp [equal] at nodup

theorem mem_areasOf
    {groupId workspaceId : String} :
    workspaceId ∈ ledger.areasOf groupId ↔
      ledger.Opens groupId workspaceId := by
  unfold areasOf Opens
  cases ledger.opened.get? groupId with
  | none =>
    simp
  | some areas =>
    simp

/-- What an area key opened needs, and the version its chain lists. -/
structure OpenHolds
    (ledger : Ledger V)
    (groupId workspaceId idSeed : String)
    (version : Nat)
    (key : Key)
    (chain : Accepted V.toPrimitives)
    (latest : Nat) : Prop where
  isGroup : isUuid groupId = true
  isChain : ledger.chains.get? groupId = some chain
  isWorkspace : isUuid workspaceId = true
  notPersonal : workspaceId ∉ ledger.personal
  derived : V.checkId groupId idSeed workspaceId = true
  isLatest : areaWriteVersion chain workspaceId = some latest
  positive : 1 ≤ version
  listed : ∃ commitment, V.areaKeyCommitment key = .ok commitment ∧
    (chain.val.areaKeys.listAt workspaceId)[version - 1]? = some commitment

/-- The ledger with an area's key opened at a version. -/
def opening
    (ledger : Ledger V)
    (groupId workspaceId : String)
    (version : Nat)
    (key : Key)
    (latest served : Nat) :
    Ledger V :=
  let areas := (ledger.opened.get? groupId).getD .empty
  let held :=
    ({ ledger with
      opened := ledger.opened.set groupId
        (areas.set workspaceId
          (max ((areas.get? workspaceId).getD 0) version)) }).holdWorkspaceKey
      workspaceId version key
  { held with
    blocked :=
      match blockOf version latest served with
      | some reason =>
        held.blocked.set (areaSlot groupId workspaceId) reason
      | none => held.blocked.erase (areaSlot groupId workspaceId) }

/-- An area opens exactly where the chain and the ids allow. -/
theorem openArea_eq_ok
    {ledger after : Ledger V}
    {groupId workspaceId idSeed : String}
    {version served : Nat}
    {key : Key}
    {block : Option AreaBlock} :
    ledger.openArea groupId workspaceId idSeed version key served =
        .ok (block, after) ↔
      ∃ chain latest,
        OpenHolds ledger groupId workspaceId idSeed version key chain
            latest ∧
          after = ledger.opening groupId workspaceId version key latest
            served ∧
          block = after.unwritable groupId workspaceId latest := by
  unfold openArea
  simp only [bind_eq_ok, uuid_eq_ok, Json.Plain.text.injEq]
  constructor
  · rintro ⟨_, ⟨rfl, isGroup⟩, isOpened⟩
    split at isOpened
    · simp at isOpened
    · next chain isChain =>
        simp only [bind_eq_ok, exists_unit, refuseIf_eq_ok, uuid_eq_ok,
          Json.Plain.text.injEq] at isOpened
        obtain ⟨_, ⟨rfl, isWorkspace⟩, notPersonal, derived, isOpened⟩ :=
          isOpened
        split at isOpened
        · simp at isOpened
        · next latest isLatest =>
            simp only [bind_eq_ok, exists_unit, refuseIf_eq_ok, not_lt,
              not_not, Bool.not_eq_false, Except.ok.injEq, Prod.mk.injEq]
              at isOpened derived
            obtain ⟨positive, commitment, isCommitment, listed, rfl, rfl⟩ :=
              isOpened
            exact ⟨chain, latest, {
              isGroup := isGroup, isChain := isChain
              isWorkspace := isWorkspace, notPersonal := notPersonal
              derived := derived, isLatest := isLatest, positive := positive
              listed := ⟨commitment, isCommitment, listed⟩ }, rfl, rfl⟩
  · rintro ⟨chain, latest, holds, rfl, rfl⟩
    obtain ⟨commitment, isCommitment, listed⟩ := holds.listed
    refine ⟨groupId, ⟨rfl, holds.isGroup⟩, ?_⟩
    rw [holds.isChain]
    simp only [bind_eq_ok, exists_unit, refuseIf_eq_ok, uuid_eq_ok,
      Json.Plain.text.injEq]
    refine ⟨_, ⟨rfl, holds.isWorkspace⟩, holds.notPersonal,
      by simp [holds.derived], ?_⟩
    rw [holds.isLatest]
    simp only [bind_eq_ok, exists_unit, refuseIf_eq_ok, not_lt, not_not,
      Except.ok.injEq]
    exact ⟨holds.positive, commitment, isCommitment, listed, rfl⟩

/-- Opening an area opens that one and no other. -/
theorem opens_opening
    {groupId workspaceId : String}
    {version latest served : Nat}
    {key : Key}
    {other area : String} :
    (ledger.opening groupId workspaceId version key latest served).Opens
        other area ↔
      other = groupId ∧ area = workspaceId ∨ ledger.Opens other area := by
  have opened :
      (ledger.opening groupId workspaceId version key latest served).opened =
        ledger.opened.set groupId
          (((ledger.opened.get? groupId).getD .empty).set workspaceId
            (max ((((ledger.opened.get? groupId).getD
              .empty).get? workspaceId).getD 0) version)) := rfl
  simp only [Opens, opened, get?_set]
  by_cases isGroup : other = groupId
  · subst isGroup
    simp only [↓reduceIte, Option.some.injEq, exists_eq_left', true_and,
      has_iff, mem_keys_set]
    cases ledger.opened.get? other with
    | none =>
      simp
    | some areas =>
      simp
  · simp [isGroup]

end Ledger

/-- Whether operations open an area derived under a family. -/
def Derived (ops : List (Op V)) (groupId workspaceId : String) : Prop :=
  ∃ idSeed version key served,
    Op.openArea groupId workspaceId idSeed version key served ∈ ops ∧
      V.checkId groupId idSeed workspaceId = true

/-- Ids that operations derive under two families differ. -/
def IdsApart (ops : List (Op V)) : Prop :=
  ∀ {first second workspaceId : String},
    Derived ops first workspaceId → Derived ops second workspaceId →
      first = second

theorem Derived.mono
    {ops more : List (Op V)}
    {groupId workspaceId : String}
    (derived : Derived ops groupId workspaceId)
    (within : ops ⊆ more) :
    Derived more groupId workspaceId := by
  obtain ⟨idSeed, version, key, served, member, isId⟩ := derived
  exact ⟨idSeed, version, key, served, within member, isId⟩

/-- What holds of every area opened: derived, well formed, not personal. -/
structure OpensHold (ops : List (Op V)) (ledger : Ledger V) : Prop where
  isGroup : ∀ {groupId workspaceId : String},
    ledger.Opens groupId workspaceId → isUuid groupId = true
  isWorkspace : ∀ {groupId workspaceId : String},
    ledger.Opens groupId workspaceId → isUuid workspaceId = true
  derived : ∀ {groupId workspaceId : String},
    ledger.Opens groupId workspaceId → Derived ops groupId workspaceId
  notPersonal : ∀ {groupId workspaceId : String},
    ledger.Opens groupId workspaceId → workspaceId ∉ ledger.personal

namespace OpensHold

variable {ops : List (Op V)} {ledger after : Ledger V}

theorem keep
    (holds : OpensHold ops ledger)
    {more : List (Op V)}
    (within : ops ⊆ more)
    (opens : ∀ groupId workspaceId, after.Opens groupId workspaceId →
      ledger.Opens groupId workspaceId)
    (personal : ∀ groupId workspaceId, ledger.Opens groupId workspaceId →
      workspaceId ∈ after.personal → workspaceId ∈ ledger.personal) :
    OpensHold more after where
  isGroup := fun opened => holds.isGroup (opens _ _ opened)
  isWorkspace := fun opened => holds.isWorkspace (opens _ _ opened)
  derived := fun opened => (holds.derived (opens _ _ opened)).mono within
  notPersonal := fun opened isPersonal =>
    holds.notPersonal (opens _ _ opened)
      (personal _ _ (opens _ _ opened) isPersonal)

end OpensHold

namespace Ledger

theorem commit_frame
    {ledger after : Ledger V}
    {chain : Accepted V.toPrimitives}
    (committed : ledger.commit chain = .ok after) :
    after.opened = ledger.opened ∧ after.personal = ledger.personal := by
  rw [commit_rest committed]
  exact ⟨rfl, rfl⟩

theorem opened_forgetGroup (ledger : Ledger V) (groupId : String) :
    (ledger.forgetGroup groupId).opened = ledger.opened.erase groupId ∧
      (ledger.forgetGroup groupId).personal = ledger.personal := by
  have dropped := SameFamilies.foldl
    (fun ledger : Ledger V => ledger.sameFamilies_dropWorkspace)
    ((ledger.kept groupId).areasOf groupId) (ledger.kept groupId)
  exact ⟨congrArg (fun opened => OrderedMap.erase opened groupId)
    dropped.opened, dropped.personal⟩

theorem opens_of_erase
    {ledger after : Ledger V}
    {forgotten : String}
    (opened : after.opened = ledger.opened.erase forgotten)
    {groupId workspaceId : String}
    (opens : after.Opens groupId workspaceId) :
    ledger.Opens groupId workspaceId := by
  obtain ⟨areas, isOpened, listed⟩ := opens
  rw [opened, get?_erase] at isOpened
  split at isOpened
  · simp at isOpened
  · exact ⟨areas, isOpened, listed⟩

end Ledger

namespace OpensHold

variable {ops : List (Op V)} {ledger after : Ledger V}

theorem forgetGroup
    (holds : OpensHold ops ledger)
    (groupId : String) :
    OpensHold ops (ledger.forgetGroup groupId) := by
  obtain ⟨opened, personal⟩ := ledger.opened_forgetGroup groupId
  refine holds.keep (List.Subset.refl _) ?_ ?_
  · intro other workspaceId opens
    exact Ledger.opens_of_erase opened opens
  · intro _ _ _ isPersonal
    rwa [personal] at isPersonal

/-- Every operation keeps what is open accounted for. -/
theorem step
    (holds : OpensHold ops ledger)
    (op : Op V) :
    OpensHold (ops ++ [op]) (ledger.step op) := by
  have within : ops ⊆ ops ++ [op] := subset_append_left _ _
  have unchanged {after : Ledger V}
      (opened : after.opened = ledger.opened)
      (personal : after.personal = ledger.personal) :
      OpensHold (ops ++ [op]) after := by
    refine holds.keep within ?_ ?_
    · intro _ _ opens
      unfold Ledger.Opens at opens
      rwa [opened] at opens
    · intro _ _ _ isPersonal
      rwa [personal] at isPersonal
  by_cases onKeys : op.onKeys = true
  · have same := ledger.sameFamilies_step onKeys
    exact unchanged same.opened same.personal
  · cases op with
    | commit chain =>
      simp only [Ledger.step]
      split
      · next committed =>
          obtain ⟨opened, personal⟩ := Ledger.commit_frame committed
          exact unchanged opened personal
      · exact unchanged rfl rfl
    | uncommit _ | owe _ | kept _ =>
      exact unchanged rfl rfl
    | clear =>
      refine holds.keep within (fun _ _ opens => opens) ?_
      intro _ _ _ isPersonal
      have isEmpty : _ ∈ (∅ : Finset String) := isPersonal
      simp at isEmpty
    | forgetGroup groupId =>
      exact (holds.forgetGroup groupId).keep within
        (fun _ _ opens => opens) (fun _ _ _ isPersonal => isPersonal)
    | forgetAllGroups =>
      have forgotten (groupIds : List String) {start : Ledger V}
          (starts : OpensHold ops start) :
          OpensHold ops (groupIds.foldl Ledger.forgetGroup start) := by
        induction groupIds generalizing start with
        | nil =>
          exact starts
        | cons groupId rest inductionHypothesis =>
          exact inductionHypothesis (starts.forgetGroup groupId)
      have start : OpensHold ops { ledger with guardOwed := ∅ } :=
        holds.keep (List.Subset.refl _) (fun _ _ opens => opens)
          (fun _ _ _ isPersonal => isPersonal)
      exact (forgotten _ start).keep within (fun _ _ opens => opens)
        (fun _ _ _ isPersonal => isPersonal)
    | openArea groupId workspaceId idSeed version key served =>
      simp only [Ledger.step]
      cases isOpened : ledger.openArea groupId workspaceId idSeed version
          key served with
      | error reason =>
        exact unchanged rfl rfl
      | ok found =>
        obtain ⟨block, after⟩ := found
        obtain ⟨chain, latest, opening, rfl, _⟩ :=
          Ledger.openArea_eq_ok.mp isOpened
        exact {
          isGroup := by
            intro other area opens
            rcases Ledger.opens_opening.mp opens with ⟨rfl, rfl⟩ | before
            · exact opening.isGroup
            · exact holds.isGroup before
          isWorkspace := by
            intro other area opens
            rcases Ledger.opens_opening.mp opens with ⟨rfl, rfl⟩ | before
            · exact opening.isWorkspace
            · exact holds.isWorkspace before
          derived := by
            intro other area opens
            rcases Ledger.opens_opening.mp opens with ⟨rfl, rfl⟩ | before
            · exact ⟨idSeed, version, key, served, by simp,
                opening.derived⟩
            · exact (holds.derived before).mono within
          notPersonal := by
            intro other area opens
            rcases Ledger.opens_opening.mp opens with ⟨rfl, rfl⟩ | before
            · exact opening.notPersonal
            · exact holds.notPersonal before }
    | openPersonalWorkspace workspaceId version key =>
      simp only [Ledger.step, Ledger.openPersonalWorkspace]
      split
      · next after opened =>
          simp only [bind_eq_ok, exists_unit, refuseIf_eq_ok,
            Bool.not_eq_true, Except.ok.injEq] at opened
          obtain ⟨notOpened, rfl⟩ := opened
          refine holds.keep within (fun _ _ opens => opens) ?_
          intro groupId area opens isPersonal
          have inserted : area ∈ insert workspaceId ledger.personal :=
            isPersonal
          rcases Finset.mem_insert.mp inserted with rfl | before
          · have listed := Ledger.mem_openedBy.mpr opens
            have some_ := length_pos_of_mem listed
            simp [Ledger.openedByFamily] at notOpened
            simp [notOpened] at listed
          · exact before
      · exact unchanged rfl rfl
    | _ =>
      exact absurd rfl onKeys

theorem run
    {before : List (Op V)}
    (holds : OpensHold before ledger)
    (ops : List (Op V)) :
    OpensHold (before ++ ops) (ledger.run ops) := by
  induction ops generalizing before ledger with
  | nil =>
    rwa [append_nil]
  | cons op rest inductionHypothesis =>
    have later := inductionHypothesis (holds.step op)
    rwa [append_assoc] at later

theorem start : OpensHold [] (createAreaLedger V) := by
  have nothing {groupId workspaceId : String}
      (opens : (createAreaLedger V).Opens groupId workspaceId) : False := by
    obtain ⟨areas, isOpened, _⟩ := opens
    simp [createAreaLedger] at isOpened
  exact ⟨fun opens => (nothing opens).elim, fun opens => (nothing opens).elim,
    fun opens => (nothing opens).elim, fun opens => (nothing opens).elim⟩

end OpensHold

/-- Two ledgers that hold the same of an area of a family. -/
structure SameArea
    (groupId workspaceId : String)
    (before after : Ledger V) : Prop where
  openedBy : after.openedBy workspaceId = before.openedBy workspaceId
  personal : workspaceId ∈ after.personal ↔ workspaceId ∈ before.personal
  chain : after.chains.get? groupId = before.chains.get? groupId
  guardOwed : groupId ∈ after.guardOwed ↔ groupId ∈ before.guardOwed
  areaWrite : after.areaWrite.get? (areaSlot groupId workspaceId) =
    before.areaWrite.get? (areaSlot groupId workspaceId)
  blocked : after.blocked.get? (areaSlot groupId workspaceId) =
    before.blocked.get? (areaSlot groupId workspaceId)
  rootSeenAt : after.rootSeenAt.get? (areaSlot groupId workspaceId) =
    before.rootSeenAt.get? (areaSlot groupId workspaceId)
  rootIds : after.rootIds.get? (areaSlot groupId workspaceId) =
    before.rootIds.get? (areaSlot groupId workspaceId)
  workspaceKeys : after.workspaceKeys.get? workspaceId =
    before.workspaceKeys.get? workspaceId
  ownNodeKeys : ∀ nodeId,
    after.ownNodeKeys.get? (slot workspaceId nodeId) =
      before.ownNodeKeys.get? (slot workspaceId nodeId)
  guestNodeKeys : ∀ nodeId,
    after.guestNodeKeys.get? (slot workspaceId nodeId) =
      before.guestNodeKeys.get? (slot workspaceId nodeId)
  ownPrevNodeKeys : ∀ nodeId,
    after.ownPrevNodeKeys.get? (slot workspaceId nodeId) =
      before.ownPrevNodeKeys.get? (slot workspaceId nodeId)
  guestPrevNodeKeys : ∀ nodeId,
    after.guestPrevNodeKeys.get? (slot workspaceId nodeId) =
      before.guestPrevNodeKeys.get? (slot workspaceId nodeId)
  lineage : ∀ nodeId, after.lineage.get? (slot workspaceId nodeId) =
    before.lineage.get? (slot workspaceId nodeId)
  pendingNodeKeys : ∀ nodeId,
    after.pendingNodeKeys.get? (slot workspaceId nodeId) =
      before.pendingNodeKeys.get? (slot workspaceId nodeId)
  rootOpenedUnder : ∀ nodeId,
    after.rootOpenedUnder.get? (slot workspaceId nodeId) =
      before.rootOpenedUnder.get? (slot workspaceId nodeId)

/-- Two ledgers that answer alike for a workspace. -/
structure SameAnswers (workspaceId : String) (before after : Ledger V) :
    Prop where
  familyOf : after.familyOf workspaceId = before.familyOf workspaceId
  readVersion :
    after.readVersion workspaceId = before.readVersion workspaceId
  writeVersion :
    after.writeVersion workspaceId = before.writeVersion workspaceId
  requireWritable :
    after.requireWritable workspaceId = before.requireWritable workspaceId
  wrapKeyFor : ∀ parentId parentKeyEpoch,
    after.wrapKeyFor workspaceId parentId parentKeyEpoch =
      before.wrapKeyFor workspaceId parentId parentKeyEpoch
  writableNodeKey : ∀ nodeId,
    after.writableNodeKey workspaceId nodeId =
      before.writableNodeKey workspaceId nodeId
  openListedNode : ∀ node,
    (after.openListedNode workspaceId node).1 =
      (before.openListedNode workspaceId node).1

namespace SameArea

variable {groupId workspaceId : String} {before after third : Ledger V}

theorem refl (ledger : Ledger V) : SameArea groupId workspaceId ledger ledger :=
  ⟨rfl, Iff.rfl, rfl, Iff.rfl, rfl, rfl, rfl, rfl, rfl, fun _ => rfl,
    fun _ => rfl, fun _ => rfl, fun _ => rfl, fun _ => rfl, fun _ => rfl,
    fun _ => rfl⟩

/-- Areas left the same twice are left the same. -/
theorem trans
    (first : SameArea groupId workspaceId before after)
    (second : SameArea groupId workspaceId after third) :
    SameArea groupId workspaceId before third where
  openedBy := second.openedBy.trans first.openedBy
  personal := second.personal.trans first.personal
  chain := second.chain.trans first.chain
  guardOwed := second.guardOwed.trans first.guardOwed
  areaWrite := second.areaWrite.trans first.areaWrite
  blocked := second.blocked.trans first.blocked
  rootSeenAt := second.rootSeenAt.trans first.rootSeenAt
  rootIds := second.rootIds.trans first.rootIds
  workspaceKeys := second.workspaceKeys.trans first.workspaceKeys
  ownNodeKeys := fun nodeId =>
    (second.ownNodeKeys nodeId).trans (first.ownNodeKeys nodeId)
  guestNodeKeys := fun nodeId =>
    (second.guestNodeKeys nodeId).trans (first.guestNodeKeys nodeId)
  ownPrevNodeKeys := fun nodeId =>
    (second.ownPrevNodeKeys nodeId).trans (first.ownPrevNodeKeys nodeId)
  guestPrevNodeKeys := fun nodeId =>
    (second.guestPrevNodeKeys nodeId).trans (first.guestPrevNodeKeys nodeId)
  lineage := fun nodeId =>
    (second.lineage nodeId).trans (first.lineage nodeId)
  pendingNodeKeys := fun nodeId =>
    (second.pendingNodeKeys nodeId).trans (first.pendingNodeKeys nodeId)
  rootOpenedUnder := fun nodeId =>
    (second.rootOpenedUnder nodeId).trans (first.rootOpenedUnder nodeId)

end SameArea

/-- Whether a family's chain lets an area root's key be held. -/
def Ledger.rootHolds
    (ledger : Ledger V)
    (groupId workspaceId : String)
    (epoch : Nat)
    (key : Key) :
    Bool :=
  (ledger.chains.get? groupId).all fun chain =>
    (checkAreaRoot chain workspaceId epoch key).isOk

/-- An area of one family, and not the person's own. -/
structure OneFamily
    (groupId workspaceId : String)
    (ledger : Ledger V) : Prop where
  openedBy : ledger.openedBy workspaceId = [groupId]
  notPersonal : workspaceId ∉ ledger.personal

namespace OneFamily

variable {groupId workspaceId : String} {ledger : Ledger V}

theorem isArea
    (one : OneFamily groupId workspaceId ledger) :
    ledger.isArea workspaceId = true := by
  simp [Ledger.isArea, one.notPersonal, one.openedBy]

theorem familyOf
    (one : OneFamily groupId workspaceId ledger) :
    ledger.familyOf workspaceId = some groupId := by
  rw [Ledger.familyOf, one.openedBy]

theorem heldBack
    (one : OneFamily groupId workspaceId ledger) :
    ledger.heldBack workspaceId = !ledger.chains.has groupId := by
  rw [Ledger.heldBack, one.openedBy]
  simp

theorem requireGuardKept
    (one : OneFamily groupId workspaceId ledger) :
    ledger.requireGuardKept workspaceId =
      refuseIf (groupId ∈ ledger.guardOwed) GUARD_NOT_KEPT := by
  rw [Ledger.requireGuardKept, one.openedBy]
  simp only [any_cons, any_nil, Bool.or_false, decide_eq_true_eq]

theorem readAt
    (one : OneFamily groupId workspaceId ledger) :
    ledger.readAt workspaceId =
      match ledger.areaWrite.get? (areaSlot groupId workspaceId) with
      | none => .error NOT_CHECKED_KEYS
      | some version => .ok (some (groupId, version)) := by
  unfold Ledger.readAt
  exact (if_pos one.isArea).trans (one.familyOf ▸ rfl)

theorem of_sameFamilies
    (one : OneFamily groupId workspaceId ledger)
    {after : Ledger V}
    (same : SameFamilies ledger after) :
    OneFamily groupId workspaceId after where
  openedBy := by
    unfold Ledger.openedBy
    rw [same.opened]
    exact one.openedBy
  notPersonal := by
    rw [same.personal]
    exact one.notPersonal

theorem rootSeen
    (one : OneFamily groupId workspaceId ledger)
    (nodeId : String)
    (epoch : Nat)
    (key : Key) :
    (ledger.rootSeen workspaceId nodeId epoch key).1 =
      ledger.rootHolds groupId workspaceId epoch key := by
  unfold Ledger.rootSeen Ledger.rootHolds
  rw [if_pos one.isArea, one.familyOf]
  dsimp only
  cases ledger.chains.get? groupId with
  | none =>
    rfl
  | some chain =>
    rw [Option.all_some]
    dsimp only
    cases checkAreaRoot chain workspaceId epoch key with
    | error reason =>
      dsimp only
      split
      · rfl
      · rfl
    | ok committed =>
      rfl

/-- With one family a listed node opens by that family's chain. -/
theorem openListedNode
    (one : OneFamily groupId workspaceId ledger)
    (node : ServedNodeKey) :
    (ledger.openListedNode workspaceId node).1 =
      if ledger.heldBack workspaceId then
        .error NO_CHAIN
      else if ledger.isAreaRoot workspaceId node &&
          ledger.notTheRoot workspaceId node.id then
        .error NOT_COMMITTED_ROOT
      else
        match (ledger.takeListed workspaceId node).map Prod.fst with
        | .error reason => .error reason
        | .ok key =>
          if ledger.isAreaRoot workspaceId node && !ledger.rootHolds groupId
              workspaceId node.parentKeyEpoch key then
            .error NOT_COMMITTED_ROOT
          else
            .ok key := by
  unfold Ledger.openListedNode
  dsimp only
  split
  · rfl
  · next notHeld =>
      split
      · rfl
      · cases taken : ledger.takeListed workspaceId node with
        | error reason =>
          rfl
        | ok found =>
          obtain ⟨key, after⟩ := found
          have same := Ledger.sameFamilies_takeListed taken
          have heldBack {later : Ledger V}
              (unchanged : SameFamilies ledger later) :
              later.heldBack workspaceId = false := by
            have first := one.heldBack
            rw [Bool.eq_false_of_not_eq_true notHeld] at first
            rw [(one.of_sameFamilies unchanged).heldBack, unchanged.chains,
              ← first]
          have rootHolds :
              (after.rootSeen workspaceId node.id node.parentKeyEpoch
                  key).1 =
                ledger.rootHolds groupId workspaceId node.parentKeyEpoch
                  key := by
            rw [(one.of_sameFamilies same).rootSeen, Ledger.rootHolds,
              Ledger.rootHolds, same.chains]
          dsimp only [Except.map]
          cases isRoot : ledger.isAreaRoot workspaceId node with
          | false =>
            have kept := same.trans
              (after.sameFamilies_keepPrevious workspaceId node false
                (ledger.heldPrevious workspaceId node))
            simp [heldBack kept]
          | true =>
            have seen := same.trans (after.sameFamilies_rootSeen
              workspaceId node.id node.parentKeyEpoch key)
            have kept := seen.trans
              (Ledger.sameFamilies_keepPrevious _ workspaceId node true
                (ledger.heldPrevious workspaceId node))
            simp only [↓reduceIte, rootHolds]
            cases ledger.rootHolds groupId workspaceId
                node.parentKeyEpoch key with
            | false =>
              rfl
            | true =>
              simp [heldBack kept]

end OneFamily

namespace SameArea

variable {groupId workspaceId : String} {before after : Ledger V}

section

variable
  (same : SameArea groupId workspaceId before after)
  (one : OneFamily groupId workspaceId before)

include same one

theorem oneFamily : OneFamily groupId workspaceId after where
  openedBy := same.openedBy.trans one.openedBy
  notPersonal := by
    rw [same.personal]
    exact one.notPersonal

theorem heldBack :
    after.heldBack workspaceId = before.heldBack workspaceId := by
  rw [(same.oneFamily one).heldBack, one.heldBack, OrderedMap.has,
    OrderedMap.has, same.chain]

theorem requireGuardKept :
    after.requireGuardKept workspaceId =
      before.requireGuardKept workspaceId := by
  rw [(same.oneFamily one).requireGuardKept, one.requireGuardKept]
  simp only [same.guardOwed]

theorem readAt : after.readAt workspaceId = before.readAt workspaceId := by
  rw [(same.oneFamily one).readAt, one.readAt, same.areaWrite]

theorem writeVersion :
    after.writeVersion workspaceId = before.writeVersion workspaceId := by
  unfold Ledger.writeVersion
  rw [same.readAt one, one.readAt]
  cases before.areaWrite.get? (areaSlot groupId workspaceId) with
  | none =>
    rfl
  | some version =>
    simp only [ok_bind]
    rw [OrderedMap.has, OrderedMap.has, same.blocked, same.rootSeenAt]

theorem nodeKey (nodeId : String) :
    after.nodeKey workspaceId nodeId = before.nodeKey workspaceId nodeId := by
  unfold Ledger.nodeKey Ledger.nodeKeysOf
  rw [same.heldBack one, OrderedMap.has, OrderedMap.has, same.workspaceKeys,
    apply_ite (fun pool : OrderedMap String HeldKey =>
      pool.get? (slot workspaceId nodeId)),
    apply_ite (fun pool : OrderedMap String HeldKey =>
      pool.get? (slot workspaceId nodeId)),
    same.ownNodeKeys, same.guestNodeKeys]

omit one in
theorem prevNodeKey (nodeId : String) :
    (after.prevNodeKeysOf workspaceId).get? (slot workspaceId nodeId) =
      (before.prevNodeKeysOf workspaceId).get? (slot workspaceId nodeId) := by
  unfold Ledger.prevNodeKeysOf
  rw [OrderedMap.has, OrderedMap.has, same.workspaceKeys,
    apply_ite (fun pool : OrderedMap String HeldKey =>
      pool.get? (slot workspaceId nodeId)),
    apply_ite (fun pool : OrderedMap String HeldKey =>
      pool.get? (slot workspaceId nodeId)),
    same.ownPrevNodeKeys, same.guestPrevNodeKeys]

theorem parentKeyAndRoot (parentId : String) (parentKeyEpoch : Nat) :
    after.parentKeyAndRoot workspaceId parentId parentKeyEpoch =
      before.parentKeyAndRoot workspaceId parentId parentKeyEpoch := by
  unfold Ledger.parentKeyAndRoot Ledger.rootedAtOf
  simp only [same.workspaceKeys, same.pendingNodeKeys, same.nodeKey one,
    same.prevNodeKey, same.lineage]

theorem rootedNow (rootedAt : Option Nat) :
    after.rootedNow workspaceId rootedAt =
      before.rootedNow workspaceId rootedAt := by
  unfold Ledger.rootedNow
  rw [same.writeVersion one]

theorem rootedAtWriteVersion (nodeId : String) :
    after.rootedAtWriteVersion workspaceId nodeId =
      before.rootedAtWriteVersion workspaceId nodeId := by
  unfold Ledger.rootedAtWriteVersion Ledger.rootedAtOf
  rw [same.rootedNow one, same.lineage]

theorem requireWritable :
    after.requireWritable workspaceId =
      before.requireWritable workspaceId := by
  unfold Ledger.requireWritable Ledger.workspaceKey
  rw [same.requireGuardKept one, same.writeVersion one, same.workspaceKeys]

theorem wrapKeyFor (parentId : String) (parentKeyEpoch : Nat) :
    after.wrapKeyFor workspaceId parentId parentKeyEpoch =
      before.wrapKeyFor workspaceId parentId parentKeyEpoch := by
  unfold Ledger.wrapKeyFor Ledger.areaWrapKey
  simp only [same.requireGuardKept one, one.isArea,
    (same.oneFamily one).isArea, same.pendingNodeKeys, same.nodeKey one,
    same.rootedNow one, same.rootedAtWriteVersion one, ↓reduceIte]

theorem writableNodeKey (nodeId : String) :
    after.writableNodeKey workspaceId nodeId =
      before.writableNodeKey workspaceId nodeId := by
  unfold Ledger.writableNodeKey
  simp only [same.heldBack one, same.requireGuardKept one, one.isArea,
    (same.oneFamily one).isArea, same.nodeKey one,
    same.rootedAtWriteVersion one, ↓reduceIte]

theorem isAreaRoot (node : ServedNodeKey) :
    after.isAreaRoot workspaceId node =
      before.isAreaRoot workspaceId node := by
  unfold Ledger.isAreaRoot
  rw [one.isArea, (same.oneFamily one).isArea]

/-- Taking a listed node does not depend on other areas. -/
theorem takeListed (node : ServedNodeKey) :
    (after.takeListed workspaceId node).map Prod.fst =
      (before.takeListed workspaceId node).map Prod.fst := by
  have cached :
      after.cachedFor workspaceId node =
        before.cachedFor workspaceId node := by
    unfold Ledger.cachedFor
    rw [same.nodeKey one, same.isAreaRoot one, same.rootOpenedUnder]
  have opened :
      (after.openEnvelope workspaceId node).map Prod.fst =
        (before.openEnvelope workspaceId node).map Prod.fst := by
    unfold Ledger.openEnvelope
    rw [same.parentKeyAndRoot one, same.heldBack one, same.isAreaRoot one]
    cases before.parentKeyAndRoot workspaceId node.parentId
        node.parentKeyEpoch with
    | error reason =>
      rfl
    | ok parent =>
      simp only [ok_bind]
      cases decode node.keyEnvelope KEY_ENVELOPE_BYTES with
      | error reason =>
        rfl
      | ok envelope =>
        simp only [ok_bind]
        cases V.openNodeKey envelope parent.1
            (node.context workspaceId) with
        | error reason =>
          rfl
        | ok key =>
          simp only [ok_bind]
          cases refuseIf (before.heldBack workspaceId = true)
              NO_CHAIN with
          | error reason =>
            rfl
          | ok done =>
            simp only [ok_bind]
            split
            · rfl
            · rfl
  unfold Ledger.takeListed
  rw [cached]
  cases before.cachedFor workspaceId node with
  | none =>
    exact opened
  | some key =>
    rfl

theorem openListedNode (node : ServedNodeKey) :
    (after.openListedNode workspaceId node).1 =
      (before.openListedNode workspaceId node).1 := by
  have notTheRoot :
      after.notTheRoot workspaceId node.id =
        before.notTheRoot workspaceId node.id := by
    rw [Ledger.notTheRoot, Ledger.notTheRoot, one.familyOf,
      (same.oneFamily one).familyOf]
    dsimp only
    rw [same.rootIds]
  have rootHolds (key : Key) :
      after.rootHolds groupId workspaceId node.parentKeyEpoch key =
        before.rootHolds groupId workspaceId node.parentKeyEpoch key := by
    rw [Ledger.rootHolds, Ledger.rootHolds, same.chain]
  rw [(same.oneFamily one).openListedNode, one.openListedNode,
    same.heldBack one, same.isAreaRoot one, notTheRoot, same.takeListed one]
  simp only [rootHolds]

theorem answers : SameAnswers workspaceId before after where
  familyOf := by rw [one.familyOf, (same.oneFamily one).familyOf]
  readVersion := by rw [Ledger.readVersion, Ledger.readVersion, same.readAt one]
  writeVersion := same.writeVersion one
  requireWritable := same.requireWritable one
  wrapKeyFor := same.wrapKeyFor one
  writableNodeKey := same.writableNodeKey one
  openListedNode := same.openListedNode one

end

end SameArea

namespace Ledger

variable {groupId workspaceId : String}

/-- Another family's commit of an area leaves this area. -/
theorem sameArea_commitArea
    (isGroup : Slashless groupId)
    (isWorkspace : Slashless workspaceId)
    {chain : Accepted V.toPrimitives}
    (other : chain.val.groupId ≠ groupId)
    (ledger : Ledger V)
    (listed : String) :
    SameArea groupId workspaceId ledger (commitArea chain ledger listed) := by
  have place : areaSlot groupId workspaceId ≠
      areaSlot chain.val.groupId listed := by
    intro equal
    have groups := ((Slots.slashed_inj isGroup isWorkspace).mp equal).1
    exact other groups.symm
  have same : SameArea groupId workspaceId ledger ledger :=
    SameArea.refl ledger
  unfold commitArea
  dsimp only
  split
  · exact { same with
      areaWrite := by rw [get?_erase, if_neg place]
      rootSeenAt := by rw [get?_erase, if_neg place] }
  · exact { same with
      areaWrite := by rw [get?_set, if_neg place] }

/-- Another family's commit leaves this area. -/
theorem sameArea_commit
    (isGroup : Slashless groupId)
    (isWorkspace : Slashless workspaceId)
    {ledger after : Ledger V}
    {chain : Accepted V.toPrimitives}
    (other : chain.val.groupId ≠ groupId)
    (committed : ledger.commit chain = .ok after) :
    SameArea groupId workspaceId ledger after := by
  simp only [commit, bind_eq_ok, exists_unit, Except.ok.injEq] at committed
  obtain ⟨_, rfl⟩ := committed
  have start : SameArea groupId workspaceId ledger
      { ledger with
        chains := ledger.chains.set chain.val.groupId chain
        floors :=
          if movesFloor (ledger.floors.get? chain.val.groupId) chain then
            ledger.floors.set chain.val.groupId chain
          else
            ledger.floors } :=
    { SameArea.refl ledger with
      chain := by rw [get?_set, if_neg (Ne.symm other)] }
  have areas (workspaceIds : List String) {first : Ledger V}
      (same : SameArea groupId workspaceId ledger first) :
      SameArea groupId workspaceId ledger
        (workspaceIds.foldl (commitArea chain) first) := by
    induction workspaceIds generalizing first with
    | nil =>
      exact same
    | cons listed rest inductionHypothesis =>
      exact inductionHypothesis (same.trans
        (sameArea_commitArea isGroup isWorkspace other first listed))
  exact areas _ start

theorem sameArea_uncommit
    (isGroup : Slashless groupId)
    (isWorkspace : Slashless workspaceId)
    (ledger : Ledger V)
    {other : String}
    (differs : other ≠ groupId) :
    SameArea groupId workspaceId ledger (ledger.uncommit other) := by
  have notUnder : isUnder other (areaSlot groupId workspaceId) = false := by
    rw [← Bool.not_eq_true, isUnder, areaSlot,
      Slots.begins_slashed isGroup isWorkspace]
    exact Ne.symm differs
  exact { SameArea.refl ledger with
    chain := by
      show (ledger.chains.erase other).get? groupId = _
      rw [get?_erase, if_neg (Ne.symm differs)]
    areaWrite := by
      show (ledger.areaWrite.keep _).get? _ = _
      rw [get?_keep, notUnder]
      rfl }

/-- Dropping another workspace leaves this area. -/
theorem sameArea_dropWorkspace
    (isWorkspace : Slashless workspaceId)
    (ledger : Ledger V)
    {dropped : String}
    (isDropped : Slashless dropped)
    (differs : dropped ≠ workspaceId) :
    SameArea groupId workspaceId ledger (ledger.dropWorkspace dropped) := by
  have notUnder (nodeId : String) :
      (!isUnder dropped (slot workspaceId nodeId)) = true := by
    rw [Bool.not_eq_true', ← Bool.not_eq_true, isUnder, slot,
      Slots.begins_slashed_of_plain isWorkspace isDropped]
    exact Ne.symm differs
  exact { SameArea.refl ledger with
    workspaceKeys := by
      show (ledger.workspaceKeys.erase dropped).get? workspaceId = _
      rw [get?_erase, if_neg (Ne.symm differs)]
    ownNodeKeys := by
      intro nodeId
      show (ledger.ownNodeKeys.keep _).get? _ = _
      rw [get?_keep, if_pos (notUnder nodeId)]
    guestNodeKeys := by
      intro nodeId
      show (ledger.guestNodeKeys.keep _).get? _ = _
      rw [get?_keep, if_pos (notUnder nodeId)]
    ownPrevNodeKeys := by
      intro nodeId
      show (ledger.ownPrevNodeKeys.keep _).get? _ = _
      rw [get?_keep, if_pos (notUnder nodeId)]
    guestPrevNodeKeys := by
      intro nodeId
      show (ledger.guestPrevNodeKeys.keep _).get? _ = _
      rw [get?_keep, if_pos (notUnder nodeId)]
    lineage := by
      intro nodeId
      show (ledger.lineage.keep _).get? _ = _
      rw [get?_keep, if_pos (notUnder nodeId)]
    pendingNodeKeys := by
      intro nodeId
      show (ledger.pendingNodeKeys.keep _).get? _ = _
      rw [get?_keep, if_pos (notUnder nodeId)]
    rootOpenedUnder := by
      intro nodeId
      show (ledger.rootOpenedUnder.keep _).get? _ = _
      rw [get?_keep, if_pos (notUnder nodeId)] }

theorem openedBy_of_erase
    {ledger after : Ledger V}
    {forgotten : String}
    (opened : after.opened = ledger.opened.erase forgotten)
    (elsewhere : ¬ ledger.Opens forgotten workspaceId) :
    after.openedBy workspaceId = ledger.openedBy workspaceId := by
  unfold openedBy
  rw [opened]
  simp only [OrderedMap.erase, OrderedMap.keep, filter_filter]
  congr 1
  refine filter_congr ?_
  intro entry member
  by_cases isForgotten : entry.1 = forgotten
  · have unlisted : entry.2.has workspaceId = false := by
      rw [Bool.eq_false_iff]
      intro listed
      refine elsewhere ⟨entry.2, ?_, listed⟩
      rw [get?_eq_some, ← isForgotten]
      exact member
    simp [unlisted]
  · simp [isForgotten]

/-- Forgetting another family leaves this area. -/
theorem sameArea_forgetGroup
    (isGroup : Slashless groupId)
    (isWorkspace : Slashless workspaceId)
    (ledger : Ledger V)
    {other : String}
    (differs : other ≠ groupId)
    (elsewhere : ∀ area, ledger.Opens other area →
      Slashless area ∧ area ≠ workspaceId) :
    SameArea groupId workspaceId ledger (ledger.forgetGroup other) := by
  have notUnder :
      (!isUnder other (areaSlot groupId workspaceId)) = true := by
    rw [Bool.not_eq_true', ← Bool.not_eq_true, isUnder, areaSlot,
      Slots.begins_slashed isGroup isWorkspace]
    exact Ne.symm differs
  have waiting : SameArea groupId workspaceId ledger (ledger.kept other) :=
    { SameArea.refl ledger with
      guardOwed := by
        show groupId ∈ ledger.guardOwed.erase other ↔ _
        rw [Finset.mem_erase]
        exact and_iff_right (Ne.symm differs) }
  have dropped (areas : List String)
      (each : ∀ area ∈ areas, Slashless area ∧ area ≠ workspaceId)
      {first : Ledger V}
      (same : SameArea groupId workspaceId ledger first) :
      SameArea groupId workspaceId ledger
        (areas.foldl dropWorkspace first) := by
    induction areas generalizing first with
    | nil =>
      exact same
    | cons area rest inductionHypothesis =>
      obtain ⟨isArea, isOther⟩ := each area (by simp)
      exact inductionHypothesis
        (fun later member => each later (by simp [member]))
        (same.trans
          (first.sameArea_dropWorkspace isWorkspace isArea isOther))
  have all := dropped (ledger.areasOf other)
    (fun area member => elsewhere area (mem_areasOf.mp member)) waiting
  refine all.trans { SameArea.refl _ with
    openedBy := ?_, chain := ?_, areaWrite := ?_, blocked := ?_
    rootSeenAt := ?_, rootIds := ?_ }
  · refine openedBy_of_erase rfl ?_
    have families := SameFamilies.foldl
      (fun ledger : Ledger V => ledger.sameFamilies_dropWorkspace)
      (ledger.areasOf other) (ledger.kept other)
    unfold Opens
    rw [families.opened]
    intro opens
    exact (elsewhere workspaceId opens).2 rfl
  · show (OrderedMap.erase _ other).get? groupId = _
    rw [get?_erase, if_neg (Ne.symm differs)]
  · show (OrderedMap.keep _ _).get? _ = _
    rw [get?_keep, if_pos notUnder]
  · show (OrderedMap.keep _ _).get? _ = _
    rw [get?_keep, if_pos notUnder]
  · show (OrderedMap.keep _ _).get? _ = _
    rw [get?_keep, if_pos notUnder]
  · show (OrderedMap.keep _ _).get? _ = _
    rw [get?_keep, if_pos notUnder]

/-- Another family's opening leaves this area. -/
theorem sameArea_opening
    (isGroup : Slashless groupId)
    (isWorkspace : Slashless workspaceId)
    {ledger : Ledger V}
    (one : OneFamily groupId workspaceId ledger)
    {other area : String}
    (otherGroup : other ≠ groupId)
    (otherArea : area ≠ workspaceId)
    (version latest served : Nat)
    (key : Key) :
    SameArea groupId workspaceId ledger
      (ledger.opening other area version key latest served) := by
  have place : areaSlot groupId workspaceId ≠ areaSlot other area := by
    intro equal
    have groups := ((Slots.slashed_inj isGroup isWorkspace).mp equal).1
    exact otherGroup groups.symm
  have families :
      (ledger.opening other area version key latest served).openedBy
        workspaceId = [groupId] := by
    refine openedBy_eq_singleton (opens_opening.mpr (.inr ?_)) ?_
    · exact mem_openedBy.mp (by simp [one.openedBy])
    · intro found opens
      rcases opens_opening.mp opens with ⟨_, same⟩ | before
      · exact absurd same.symm otherArea
      · have member := mem_openedBy.mpr before
        rw [one.openedBy, mem_singleton] at member
        exact member
  exact { SameArea.refl ledger with
    openedBy := families.trans one.openedBy.symm
    blocked := by
      unfold opening
      dsimp only
      split
      · rw [get?_set, if_neg place]
        rfl
      · rw [get?_erase, if_neg place]
        rfl
    workspaceKeys := by
      show (ledger.workspaceKeys.set area _).get? workspaceId = _
      rw [get?_set, if_neg (Ne.symm otherArea)] }

end Ledger

/-- Whether an operation names a family, and another than the one given. -/
def Op.namesAnother (groupId : String) : Op V → Bool
  | .commit chain => chain.val.groupId ≠ groupId
  | .uncommit other | .owe other | .kept other | .forgetGroup other =>
    other ≠ groupId
  | .openArea other _ _ _ _ _ => other ≠ groupId
  | _ => false

namespace Ledger

variable {groupId workspaceId : String}

variable {ledger : Ledger V} {ops : List (Op V)}

/-- An operation of another family leaves this area. -/
theorem sameArea_step
    (holds : OpensHold ops ledger)
    (one : OneFamily groupId workspaceId ledger)
    {op : Op V}
    (named : op.namesAnother groupId = true)
    (apart : IdsApart (ops ++ [op])) :
    SameArea groupId workspaceId ledger (ledger.step op) := by
  have opens : ledger.Opens groupId workspaceId :=
    mem_openedBy.mp (by simp [one.openedBy])
  have isGroup := slashless_of_isUuid (holds.isGroup opens)
  have isWorkspace := slashless_of_isUuid (holds.isWorkspace opens)
  cases op with
  | commit chain =>
    have other : chain.val.groupId ≠ groupId := by
      simpa [Op.namesAnother] using named
    simp only [step]
    split
    · next committed =>
        exact sameArea_commit isGroup isWorkspace other committed
    · exact .refl ledger
  | uncommit other =>
    have differs : other ≠ groupId := by
      simpa [Op.namesAnother] using named
    exact ledger.sameArea_uncommit isGroup isWorkspace differs
  | owe other =>
    have differs : other ≠ groupId := by
      simpa [Op.namesAnother] using named
    exact { SameArea.refl ledger with
      guardOwed := by
        show groupId ∈ insert other ledger.guardOwed ↔ _
        rw [Finset.mem_insert]
        exact or_iff_right (Ne.symm differs) }
  | kept other =>
    have differs : other ≠ groupId := by
      simpa [Op.namesAnother] using named
    exact { SameArea.refl ledger with
      guardOwed := by
        show groupId ∈ ledger.guardOwed.erase other ↔ _
        rw [Finset.mem_erase]
        exact and_iff_right (Ne.symm differs) }
  | forgetGroup other =>
    have differs : other ≠ groupId := by
      simpa [Op.namesAnother] using named
    refine ledger.sameArea_forgetGroup isGroup isWorkspace differs ?_
    intro area opened
    refine ⟨slashless_of_isUuid (holds.isWorkspace opened), ?_⟩
    rintro rfl
    have member := mem_openedBy.mpr opened
    rw [one.openedBy, mem_singleton] at member
    exact differs member
  | openArea other area idSeed version key served =>
    have differs : other ≠ groupId := by
      simpa [Op.namesAnother] using named
    simp only [step]
    cases isOpened : ledger.openArea other area idSeed version key
        served with
    | error reason =>
      exact .refl ledger
    | ok found =>
      obtain ⟨block, after⟩ := found
      obtain ⟨chain, latest, opening, rfl, _⟩ :=
        openArea_eq_ok.mp isOpened
      refine sameArea_opening isGroup isWorkspace one differs ?_ version
        latest served key
      rintro rfl
      have here : Derived
          (ops ++ [.openArea other area idSeed version key served])
            other area :=
        ⟨idSeed, version, key, served, by simp, opening.derived⟩
      have before := (holds.derived opens).mono
        (subset_append_left ops
          [.openArea other area idSeed version key served])
      exact differs (apart here before)
  | _ =>
    simp [Op.namesAnother] at named

/-- A run of other families' operations leaves this area. -/
theorem sameArea_run
    {before others : List (Op V)}
    (holds : OpensHold before ledger)
    (one : OneFamily groupId workspaceId ledger)
    (named : ∀ op ∈ others, op.namesAnother groupId = true)
    (apart : IdsApart (before ++ others)) :
    SameArea groupId workspaceId ledger (ledger.run others) := by
  induction others generalizing before ledger with
  | nil =>
    exact .refl ledger
  | cons op rest inductionHypothesis =>
    have whole : before ++ op :: rest = before ++ [op] ++ rest := by simp
    have first := sameArea_step holds one (named op (by simp))
      (fun firstDerived secondDerived => by
        rw [whole] at apart
        exact apart
          (firstDerived.mono (subset_append_left _ rest))
          (secondDerived.mono (subset_append_left _ rest)))
    have later := inductionHypothesis (holds.step op)
      (first.oneFamily one) (fun other member => named other (by simp [member]))
      (whole ▸ apart)
    exact first.trans later

theorem OneFamily.of_openedBy
    (holds : OpensHold ops ledger)
    (apart : IdsApart ops)
    (opened : groupId ∈ ledger.openedBy workspaceId) :
    OneFamily groupId workspaceId ledger where
  openedBy := by
    have opens := mem_openedBy.mp opened
    exact openedBy_eq_singleton opens fun other otherOpens =>
      apart (holds.derived otherOpens) (holds.derived opens)
  notPersonal := holds.notPersonal (mem_openedBy.mp opened)

/-- A personal workspace stays so until a clear. -/
theorem mem_personal_step
    (isPersonal : workspaceId ∈ ledger.personal)
    {op : Op V}
    (notClear : op ≠ .clear) :
    workspaceId ∈ (ledger.step op).personal := by
  by_cases onKeys : op.onKeys = true
  · rw [(ledger.sameFamilies_step onKeys).personal]
    exact isPersonal
  · cases op with
    | commit chain =>
      simp only [step]
      split
      · next committed =>
          rw [(commit_frame committed).2]
          exact isPersonal
      · exact isPersonal
    | uncommit _ | owe _ | kept _ =>
      exact isPersonal
    | clear =>
      exact absurd rfl notClear
    | forgetGroup other =>
      show workspaceId ∈ (ledger.forgetGroup other).personal
      rw [(ledger.opened_forgetGroup other).2]
      exact isPersonal
    | forgetAllGroups =>
      have forgotten (groupIds : List String) {start : Ledger V}
          (starts : workspaceId ∈ start.personal) :
          workspaceId ∈ (groupIds.foldl forgetGroup start).personal := by
        induction groupIds generalizing start with
        | nil =>
          exact starts
        | cons other rest inductionHypothesis =>
          refine inductionHypothesis ?_
          rw [(start.opened_forgetGroup other).2]
          exact starts
      exact forgotten _ isPersonal
    | openArea other area idSeed version key served =>
      simp only [step]
      cases isOpened : ledger.openArea other area idSeed version key
          served with
      | error reason =>
        exact isPersonal
      | ok found =>
        obtain ⟨block, after⟩ := found
        obtain ⟨_, _, _, rfl, _⟩ := openArea_eq_ok.mp isOpened
        exact isPersonal
    | openPersonalWorkspace other version key =>
      simp only [step, openPersonalWorkspace]
      split
      · next after opened =>
          simp only [bind_eq_ok, exists_unit, Except.ok.injEq] at opened
          obtain ⟨_, rfl⟩ := opened
          exact Finset.mem_insert_of_mem isPersonal
      · exact isPersonal
    | _ =>
      exact absurd rfl onKeys

theorem isArea_personal
    (isPersonal : workspaceId ∈ ledger.personal)
    (unlocked : ∀ op ∈ ops, op ≠ .clear) :
    (ledger.run ops).isArea workspaceId = false := by
  induction ops generalizing ledger with
  | nil =>
    exact if_pos isPersonal
  | cons op rest inductionHypothesis =>
    exact inductionHypothesis
      (mem_personal_step isPersonal (unlocked op (by simp)))
      (fun other member => unlocked other (by simp [member]))

/--
Whatever other families' chains, areas and guards do, the ledger answers for
an area as it did; and what was opened as the person's own workspace is no
area, whatever any chain lists.
-/
theorem families_apart (before others : List (Op V)) :
    (∀ {groupId workspaceId : String},
      groupId ∈ ((createAreaLedger V).run before).openedBy workspaceId →
      (∀ op ∈ others, op.namesAnother groupId = true) →
      IdsApart (before ++ others) →
      SameAnswers workspaceId ((createAreaLedger V).run before)
        ((createAreaLedger V).run (before ++ others))) ∧
    ∀ {workspaceId : String} {version : Nat} {key : Key} {after : Ledger V},
      ((createAreaLedger V).run before).openPersonalWorkspace workspaceId
          version key = .ok after →
      (∀ op ∈ others, op ≠ .clear) →
      (after.run others).isArea workspaceId = false := by
  constructor
  · intro groupId workspaceId opened named apart
    have holds : OpensHold before ((createAreaLedger V).run before) := by
      have held := OpensHold.start.run before
      rwa [nil_append] at held
    have one := OneFamily.of_openedBy holds
      (fun first second =>
        apart (first.mono (subset_append_left _ _))
          (second.mono (subset_append_left _ _)))
      opened
    rw [run_append]
    exact (sameArea_run holds one named apart).answers one
  · intro workspaceId version key after opened unlocked
    simp only [openPersonalWorkspace, bind_eq_ok, exists_unit,
      Except.ok.injEq] at opened
    obtain ⟨_, rfl⟩ := opened
    exact isArea_personal (Finset.mem_insert_self _ _) unlocked

end Ledger

end Worker

end HushOS
