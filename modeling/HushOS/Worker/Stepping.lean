import HushOS.Worker.Walks

namespace HushOS

open Toolkit List OrderedMap

namespace Worker

/-!
# Operations that walk

Each operation of a session keeps `Walked`: what it holds anew was reached
under a chain its family committed.
-/

variable {V : Vault}

namespace Walked

variable {ops : List (Op V)} {ledger after : Ledger V}

variable {chain : Accepted V.toPrimitives} {messages : Set Bytes} {workspaceId : String}
  {key : Key} {before : List (Op V)} {node : RotatingNodeKey}

theorem sameKeys_commit
    (committed : ledger.commit chain = .ok after) :
    SameKeys ledger after := by
  rw [Ledger.commit_rest committed]
  exact ⟨rfl, rfl, rfl, rfl, rfl⟩

theorem commit
    (walked : Walked ops ledger)
    (ratchet : Ratchet messages ledger)
    (apart : Set.InjOn V.sha256 messages)
    (stated : chain.statements ⊆ messages)
    (committed : ledger.commit chain = .ok after) :
    Walked ops after := by
  refine walked.keep (sameKeys_commit committed)
    (Ledger.commit_frame committed).1 ?_
  obtain ⟨_, _, floors⟩ := Ledger.commit_eq_ok committed
  intro groupId floor isFloor
  rw [floors]
  split
  · rw [get?_set]
    split
    · next isGroup =>
        subst isGroup
        exact ⟨chain, rfl,
          carries_of_begins apart (ratchet.floor isFloor) stated
            (ratchet.begins apart stated committed isFloor)⟩
    · exact ⟨floor, isFloor, .refl floor⟩
  · exact ⟨floor, isFloor, .refl floor⟩

theorem uncommit
    (walked : Walked ops ledger)
    (groupId : String) :
    Walked ops (ledger.uncommit groupId) :=
  walked.keep ⟨rfl, rfl, rfl, rfl, rfl⟩ rfl
    (fun _ floor isFloor => ⟨floor, isFloor, .refl floor⟩)

/-- Dropping a workspace leaves the keys walked. -/
theorem dropWorkspace
    (walked : Walked ops ledger)
    (gone : String) :
    Walked ops (ledger.dropWorkspace gone) := by
  have elsewhere {workspaceId : String} (nodeId : String)
      (kept : (!isUnder gone (slot workspaceId nodeId)) = true) :
      workspaceId ≠ gone := by
    rintro rfl
    simp [isUnder_slot] at kept
  have keyed {workspaceId : String} (other : workspaceId ≠ gone)
      (has : ledger.workspaceKeys.has workspaceId = true) :
      (ledger.workspaceKeys.erase gone).has workspaceId = true := by
    rw [has_iff, OrderedMap.mem_keys] at has ⊢
    rw [get?_erase, if_neg other]
    exact has
  exact {
    ownKeyed := by
      intro workspaceId nodeId held isHeld
      have found : (ledger.ownNodeKeys.keep fun place =>
          !isUnder gone place).get? (slot workspaceId nodeId) =
            some held := isHeld
      rw [get?_keep] at found
      split at found
      · next kept =>
          obtain ⟨isWorkspace, isNode, has⟩ := walked.ownKeyed found
          exact ⟨isWorkspace, isNode, keyed (elsewhere nodeId kept) has⟩
      · simp at found
    pendingKeyed := by
      intro workspaceId nodeId pending isPending
      have found : (ledger.pendingNodeKeys.keep fun place =>
          !isUnder gone place).get? (slot workspaceId nodeId) =
            some pending := isPending
      rw [get?_keep] at found
      split at found
      · next kept =>
          obtain ⟨isWorkspace, isNode, has⟩ := walked.pendingKeyed found
          exact ⟨isWorkspace, isNode, keyed (elsewhere nodeId kept) has⟩
      · simp at found
    noGuest := by
      intro place
      show (ledger.guestNodeKeys.keep _).get? place = none
      rw [get?_keep, walked.noGuest place, ite_self]
    opened := by
      intro workspaceId has
      have found : (ledger.workspaceKeys.erase gone).has workspaceId =
          true := has
      rw [has_iff, keys_erase, mem_filter] at found
      exact walked.opened (by rw [has_iff]; exact found.1)
    areaKeys := by
      intro groupId workspaceId version key isOpened isKey
      have found : ((ledger.workspaceKeys.erase gone).get?
          workspaceId).bind (fun held => held.keys.get? version) =
            some key := isKey
      rw [get?_erase] at found
      split at found
      · simp at found
      · exact walked.areaKeys isOpened found
    own := by
      intro groupId workspaceId nodeId held isOpened isHeld
      have found : (ledger.ownNodeKeys.keep fun place =>
          !isUnder gone place).get? (slot workspaceId nodeId) =
            some held := isHeld
      have lineage : (ledger.dropWorkspace gone).lineage =
          ledger.lineage.keep fun place => !isUnder gone place := rfl
      rw [get?_keep] at found
      unfold Ledger.rootedAtOf
      rw [lineage, get?_keep]
      split at found
      · next kept =>
          rw [if_pos kept]
          exact walked.own isOpened found
      · simp at found
    pending := by
      intro groupId workspaceId nodeId pending isOpened isPending
      have found : (ledger.pendingNodeKeys.keep fun place =>
          !isUnder gone place).get? (slot workspaceId nodeId) =
            some pending := isPending
      rw [get?_keep] at found
      split at found
      · exact walked.pending isOpened found
      · simp at found }

theorem not_has_dropped
    (workspaces : List String)
    (ledger : Ledger V)
    (has : (workspaces.foldl Ledger.dropWorkspace
      ledger).workspaceKeys.has workspaceId = true) :
    workspaceId ∉ workspaces ∧
      ledger.workspaceKeys.has workspaceId = true := by
  induction workspaces generalizing ledger with
  | nil =>
    exact ⟨by simp, has⟩
  | cons gone rest inductionHypothesis =>
    obtain ⟨notRest, found⟩ := inductionHypothesis _ has
    have kept : (ledger.workspaceKeys.erase gone).has workspaceId =
        true := found
    rw [has_iff, keys_erase, mem_filter,
      decide_eq_true_eq] at kept
    refine ⟨?_, by rw [has_iff]; exact kept.1⟩
    rw [mem_cons, not_or]
    exact ⟨kept.2, notRest⟩

/-- Forgetting a group leaves the keys walked. -/
theorem forgetGroup
    (walked : Walked ops ledger)
    (gone : String) :
    Walked ops (ledger.forgetGroup gone) := by
  have dropping (workspaces : List String) {start : Ledger V}
      (starts : Walked ops start) :
      Walked ops (workspaces.foldl Ledger.dropWorkspace start) := by
    induction workspaces generalizing start with
    | nil =>
      exact starts
    | cons workspaceId rest inductionHypothesis =>
      exact inductionHypothesis (starts.dropWorkspace workspaceId)
  have kept : Walked ops (ledger.kept gone) :=
    walked.keep ⟨rfl, rfl, rfl, rfl, rfl⟩ rfl
      (fun _ floor isFloor => ⟨floor, isFloor, .refl floor⟩)
  have dropped := dropping (ledger.areasOf gone) kept
  have families := SameFamilies.foldl
    (fun ledger : Ledger V => ledger.sameFamilies_dropWorkspace)
    (ledger.areasOf gone) (ledger.kept gone)
  have notGone {workspaceId : String}
      (has : ((ledger.areasOf gone).foldl Ledger.dropWorkspace
        (ledger.kept gone)).workspaceKeys.has workspaceId = true) :
      ¬ ((ledger.areasOf gone).foldl Ledger.dropWorkspace
        (ledger.kept gone)).Opens gone workspaceId := by
    unfold Ledger.Opens
    rw [families.opened]
    intro opens
    exact (not_has_dropped _ _ has).1 (Ledger.mem_areasOf.mpr opens)
  have opened : (ledger.forgetGroup gone).opened =
      ((ledger.areasOf gone).foldl Ledger.dropWorkspace
        (ledger.kept gone)).opened.erase gone := rfl
  refine dropped.among ⟨rfl, rfl, rfl, rfl, rfl⟩ ?_ ?_
  · intro workspaceId has
    obtain ⟨groupId, areas, isOpened, listed⟩ := dropped.opened has
    have other : groupId ≠ gone := by
      rintro rfl
      exact notGone has ⟨areas, isOpened, listed⟩
    refine ⟨groupId, areas, ?_, listed⟩
    rw [opened, get?_erase, if_neg other]
    exact isOpened
  · intro groupId workspaceId has isOpened
    have before := isOpened
    rw [Ledger.openedBy_of_erase opened (notGone has)] at before
    refine ⟨before, ?_⟩
    intro floor isFloor
    have other : groupId ≠ gone := by
      rintro rfl
      exact notGone has (Ledger.mem_openedBy.mp (by simp [before]))
    refine ⟨floor, ?_, .refl floor⟩
    show (OrderedMap.erase _ gone).get? groupId = some floor
    rw [get?_erase, if_neg other]
    exact isFloor

/-- Holding a listed workspace key leaves the keys walked. -/
theorem holdWorkspaceKey
    (walked : Walked ops ledger)
    (version : Nat)
    (key : Key)
    (opens : ∃ groupId, ledger.Opens groupId workspaceId)
    (lists : ∀ groupId, ledger.openedBy workspaceId = [groupId] →
      ∃ floor, ledger.floors.get? groupId = some floor ∧
        Lists floor workspaceId version key) :
    Walked ops (ledger.holdWorkspaceKey workspaceId version key) := by
  have keyed {other : String}
      (has : ledger.workspaceKeys.has other = true) :
      (ledger.holdWorkspaceKey workspaceId version key).workspaceKeys.has
        other = true := by
    rw [has_iff] at has ⊢
    exact mem_keys_set.mpr (.inr has)
  exact {
    ownKeyed := by
      intro other nodeId held isHeld
      obtain ⟨isWorkspace, isNode, has⟩ := walked.ownKeyed isHeld
      exact ⟨isWorkspace, isNode, keyed has⟩
    pendingKeyed := by
      intro other nodeId pending isPending
      obtain ⟨isWorkspace, isNode, has⟩ := walked.pendingKeyed isPending
      exact ⟨isWorkspace, isNode, keyed has⟩
    noGuest := walked.noGuest
    opened := by
      intro other has
      rw [has_iff] at has
      rcases mem_keys_set.mp has with rfl | before
      · exact opens
      · exact walked.opened (by rw [has_iff]; exact before)
    areaKeys := by
      intro groupId other otherVersion otherKey isOpened isKey
      unfold Ledger.workspaceKey Ledger.holdWorkspaceKey at isKey
      dsimp only at isKey
      rw [get?_set] at isKey
      split at isKey
      · next here =>
          subst here
          rw [Option.bind_some, get?_set] at isKey
          split at isKey
          · next isVersion =>
              subst isVersion
              obtain rfl := Option.some.inj isKey
              exact lists groupId isOpened
          · refine walked.areaKeys isOpened ?_
            unfold Ledger.workspaceKey
            cases found : ledger.workspaceKeys.get? other with
            | none =>
              simp [found] at isKey
            | some entry =>
              rw [found, Option.getD_some] at isKey
              exact isKey
      · exact walked.areaKeys isOpened isKey
    own := walked.own
    pending := walked.pending }

/-- Opening one more area leaves the keys walked. -/
theorem opensMore
    (walked : Walked ops ledger)
    (keys : SameKeys ledger after)
    (floors : after.floors = ledger.floors)
    {groupId workspaceId : String}
    (opens : ∀ {other area : String}, after.Opens other area ↔
      other = groupId ∧ area = workspaceId ∨ ledger.Opens other area) :
    Walked ops after := by
  refine walked.among keys ?_ ?_
  · intro area has
    obtain ⟨other, isOpened⟩ := walked.opened has
    exact ⟨other, opens.mpr (.inr isOpened)⟩
  · intro family area has isOpened
    have only {other : String} (before : ledger.Opens other area) :
        other = family := by
      have member := Ledger.mem_openedBy.mpr (opens.mpr (.inr before))
      rw [isOpened, mem_singleton] at member
      exact member
    obtain ⟨other, before⟩ := walked.opened has
    obtain rfl := only before
    refine ⟨Ledger.openedBy_eq_singleton before (fun _ => only), ?_⟩
    intro floor isFloor
    exact ⟨floor, by rw [floors]; exact isFloor, .refl floor⟩

theorem exists_floor
    (ratchet : Ratchet messages ledger)
    (apart : Set.InjOn V.sha256 messages)
    {groupId : String}
    (isChain : ledger.chains.get? groupId = some chain) :
    ∃ floor, ledger.floors.get? groupId = some floor ∧
      Carries chain floor ∧ Carries floor chain := by
  obtain ⟨stated, floor, isFloor, level⟩ := ratchet.level isChain
  have floorStated := ratchet.floor isFloor
  refine ⟨floor, isFloor, carries_of_begins apart stated floorStated ?_,
    carries_of_begins apart floorStated stated ?_⟩
  · rw [level]
  · rw [level]

/-- Opening an area leaves the keys walked. -/
theorem openArea
    (walked : Walked ops ledger)
    (ratchet : Ratchet messages ledger)
    (apart : Set.InjOn V.sha256 messages)
    {groupId workspaceId idSeed : String}
    {version latest : Nat}
    (holds : ledger.OpenHolds groupId workspaceId idSeed version key chain
      latest)
    (served : Nat) :
    Walked ops
      (ledger.opening groupId workspaceId version key latest served) := by
  have opens {other area : String} :
      (ledger.opening groupId workspaceId version key latest served).Opens
          other area ↔
        other = groupId ∧ area = workspaceId ∨ ledger.Opens other area :=
    Ledger.opens_opening
  have listed : Walked ops { ledger with
      opened := (ledger.opening groupId workspaceId version key latest
        served).opened } :=
    walked.opensMore ⟨rfl, rfl, rfl, rfl, rfl⟩ rfl opens
  have held := listed.holdWorkspaceKey version key
    ⟨groupId, opens.mpr (.inl ⟨rfl, rfl⟩)⟩ ?_
  · exact held.keep ⟨rfl, rfl, rfl, rfl, rfl⟩ rfl
      (fun _ floor isFloor => ⟨floor, isFloor, .refl floor⟩)
  · intro family isOpened
    have member := Ledger.mem_openedBy.mpr (opens.mpr (.inl ⟨rfl, rfl⟩))
    have isFamily : groupId ∈ [family] := isOpened ▸ member
    obtain rfl := mem_singleton.mp isFamily
    obtain ⟨floor, isFloor, carries, _⟩ :=
      exists_floor ratchet apart holds.isChain
    have lists : Lists chain workspaceId version key := holds.listed
    exact ⟨floor, isFloor, lists.carry carries⟩

theorem oneFamily
    (holds : OpensHold ops ledger)
    {groupId workspaceId : String}
    (isOpened : ledger.openedBy workspaceId = [groupId]) :
    OneFamily groupId workspaceId ledger where
  openedBy := isOpened
  notPersonal :=
    holds.notPersonal
      (Ledger.mem_openedBy.mp (isOpened ▸ mem_singleton_self groupId))

theorem committed_of_rootHolds
    {groupId workspaceId : String}
    (isChain : ledger.chains.get? groupId = some chain)
    {version : Nat}
    (holds : ledger.rootHolds groupId workspaceId version key = true) :
    CommitsRoot chain workspaceId version key ∨
      Rootless chain workspaceId version := by
  rw [Ledger.rootHolds, isChain, Option.all_some] at holds
  cases checked : checkAreaRoot chain workspaceId version key with
  | error reason =>
    simp [checked, Except.isOk, Except.toBool] at holds
  | ok committed =>
    exact commitsRoot_of_checkAreaRoot checked

/-- Opening an envelope leaves the keys walked. -/
theorem openEnvelope
    (walked : Walked before ((createAreaLedger V).run before))
    (ratchet : Ratchet messages ((createAreaLedger V).run before))
    (apart : Set.InjOn V.sha256 messages)
    (holds : OpensHold before ((createAreaLedger V).run before))
    {node : ServedNodeKey}
    (isOpened : ((createAreaLedger V).run before).openEnvelope workspaceId
      node = .ok (key, after))
    (seen : ((createAreaLedger V).run before).isAreaRoot workspaceId node =
        true →
      (after.rootSeen workspaceId node.id node.parentKeyEpoch key).1 =
        true) :
    Walked (before ++ [.openListedNode workspaceId node]) after := by
  obtain ⟨parentKey, rootedAt, isParent, opens, notHeld, keys⟩ :=
    Ledger.openEnvelope_parts isOpened
  have families := Ledger.sameFamilies_openEnvelope isOpened
  have remembered := Ledger.sameFamilies_rememberNodeKey
    ((createAreaLedger V).run before) workspaceId node.id key node.keyEpoch
    rootedAt
  have isIds : isUuid workspaceId = true ∧ isUuid node.id = true :=
    opens.isUuid
  have held : Walked (before ++ [.openListedNode workspaceId node])
      (((createAreaLedger V).run before).rememberNodeKey workspaceId node.id
        key node.keyEpoch rootedAt) := by
    refine (walked.later _).remember (slashless_of_isUuid isIds.1)
      (slashless_of_isUuid isIds.2) (walked.workspaceKeys isParent) ?_
    intro groupId isFamily version isRooted
    subst isRooted
    rcases walked.parent isFamily isParent with
      ⟨isTop, isVersion, isKey⟩ | ⟨_, current, floor, isFloor, reached⟩
    · -- A top-level row: the area's root, opened under the area key.
      have one := oneFamily holds isFamily
      have isRoot : ((createAreaLedger V).run before).isAreaRoot workspaceId
          node = true := by
        simp [Ledger.isAreaRoot, isTop, one.isArea]
      have rootHolds : ((createAreaLedger V).run before).rootHolds groupId
          workspaceId node.parentKeyEpoch key = true := by
        have isSeen := seen isRoot
        rw [(one.of_sameFamilies families).rootSeen, Ledger.rootHolds,
          families.chains] at isSeen
        exact isSeen
      rw [one.heldBack, Bool.not_eq_false', has_iff,
        OrderedMap.mem_keys] at notHeld
      obtain ⟨chain, isChain⟩ := notHeld
      obtain ⟨floor, isFloor, carries, back⟩ :=
        exists_floor ratchet apart isChain
      obtain ⟨listing, isListing, lists⟩ := walked.areaKeys isFamily isKey
      obtain rfl := Option.some.inj (isFloor.symm.trans isListing)
      have opening : RootOpened chain workspaceId version before node
          parentKey key := {
        parent := isTop
        epoch := isVersion
        held := isKey
        listed := lists.carry back
        opened := opens
        committed := by
          rw [← isVersion]
          exact committed_of_rootHolds isChain rootHolds }
      exact ⟨floor, isFloor, Reached.carry carries (.root opening)⟩
    · exact ⟨floor, isFloor, .opened reached current opens⟩
  refine held.keep keys (families.opened.trans remembered.opened.symm) ?_
  intro groupId floor isFloor
  rw [remembered.floors] at isFloor
  exact ⟨floor, by rw [families.floors]; exact isFloor, .refl floor⟩

/-- Opening a listed node leaves the keys walked. -/
theorem openListedNode
    (walked : Walked before ((createAreaLedger V).run before))
    (ratchet : Ratchet messages ((createAreaLedger V).run before))
    (apart : Set.InjOn V.sha256 messages)
    (holds : OpensHold before ((createAreaLedger V).run before))
    (workspaceId : String)
    (node : ServedNodeKey) :
    Walked (before ++ [.openListedNode workspaceId node])
      (((createAreaLedger V).run before).openListedNode workspaceId
        node).2 := by
  have families := Ledger.sameFamilies_openListedNode
    ((createAreaLedger V).run before) workspaceId node
  have later := walked.later (.openListedNode workspaceId node)
  have alike {start : Ledger V}
      (started : Walked (before ++ [.openListedNode workspaceId node]) start)
      (same : SameFamilies ((createAreaLedger V).run before) start)
      (keys : SameKeys start
        (((createAreaLedger V).run before).openListedNode workspaceId
          node).2) :
      Walked (before ++ [.openListedNode workspaceId node])
        (((createAreaLedger V).run before).openListedNode workspaceId
          node).2 := by
    refine started.keep keys (families.opened.trans same.opened.symm) ?_
    intro groupId floor isFloor
    rw [same.floors] at isFloor
    exact ⟨floor, by rw [families.floors]; exact isFloor, .refl floor⟩
  rcases Ledger.openListedNode_cases ((createAreaLedger V).run before)
      workspaceId node with
    keys | ⟨key, taken, isOpened, seen, keys⟩ | ⟨taken, isTaken, keys⟩
  · exact alike later (.refl _) keys
  · exact alike (walked.openEnvelope ratchet apart holds isOpened seen)
      (Ledger.sameFamilies_openEnvelope isOpened) keys
  · rcases isTaken with rfl | ⟨key, isOpened⟩
    · exact alike (later.forget workspaceId node.id)
        (Ledger.sameFamilies_forgetNodeKey _ _ _) keys
    · -- A root that was opened and is not the one committed to: not held.
      obtain ⟨parentKey, rootedAt, isParent, opens, _, opened⟩ :=
        Ledger.openEnvelope_parts isOpened
      have dropped := Ledger.sameKeys_dropRoot opened workspaceId node.id
      refine alike
        (later.rememberForget (walked.workspaceKeys isParent) key
          node.keyEpoch rootedAt) ?_
        (SameKeys.trans dropped
          ⟨keys.workspaceKeys, keys.ownNodeKeys, keys.guestNodeKeys,
            keys.lineage, keys.pendingNodeKeys⟩)
      exact (Ledger.sameFamilies_rememberNodeKey _ _ _ _ _ _).trans
        (Ledger.sameFamilies_forgetNodeKey _ _ _)

theorem ne_of_wrapKeyFor
    {groupId workspaceId parentId : String}
    (one : OneFamily groupId workspaceId ledger)
    {parentKeyEpoch : Nat}
    (wrapped : ledger.wrapKeyFor workspaceId parentId parentKeyEpoch =
      .ok key) :
    parentId ≠ workspaceId := by
  rintro rfl
  simp [Ledger.wrapKeyFor, bind_eq_ok, one.isArea] at wrapped

/-- Making a node's key leaves the keys walked. -/
theorem newNodeKey
    (walked : Walked before ((createAreaLedger V).run before))
    (holds : OpensHold before ((createAreaLedger V).run before))
    {node : NewNodeKey}
    {key nonce : Bytes}
    {made : Key × Bytes}
    (isMade : ((createAreaLedger V).run before).newNodeKey workspaceId node
      key nonce = .ok (made, after)) :
    Walked (before ++ [.newNodeKey workspaceId node key nonce]) after := by
  simp only [Ledger.newNodeKey, bind_eq_ok, Except.ok.injEq,
    Prod.mk.injEq] at isMade
  obtain ⟨wrapKey, wrapped, envelope, isSealed, rootedAt, isRoot, _, rfl⟩ :=
    isMade
  unfold Ledger.rootOf at isRoot
  rw [map_eq_ok] at isRoot
  obtain ⟨⟨parentKey, root⟩, isParent, rfl⟩ := isRoot
  have isIds := isUuid_of_wrapNodeKey isSealed
  refine (walked.later _).remember (slashless_of_isUuid isIds.1)
    (slashless_of_isUuid isIds.2) (walked.workspaceKeys isParent) ?_
  intro groupId isFamily version isRooted
  dsimp only at isRooted
  subst isRooted
  rcases walked.parent isFamily isParent with
    ⟨isTop, _, _⟩ | ⟨_, current, floor, isFloor, reached⟩
  · exact absurd isTop (ne_of_wrapKeyFor (oneFamily holds isFamily) wrapped)
  · exact ⟨floor, isFloor, .made reached current⟩

/-- Wrapping a key again leaves the keys walked. -/
theorem rewrapAtTarget
    (walked : Walked before ((createAreaLedger V).run before))
    (holds : OpensHold before ((createAreaLedger V).run before))
    (targetEpoch : Nat)
    (fresh : Bytes)
    {old nonce envelope : Bytes}
    (rekey : RekeyKeys → Except CryptoError Unit)
    (isOld : ((createAreaLedger V).run before).rotationOldKey workspaceId
      node = .ok old)
    (rewrapped : ((createAreaLedger V).run before).rewrapAtTarget workspaceId
      node old nonce = .ok (envelope, after)) :
    Walked
      (before ++ [.rotateKey workspaceId node targetEpoch fresh nonce rekey])
      after := by
  simp only [Ledger.rewrapAtTarget, bind_eq_ok, exists_unit, refuseIf_eq_ok]
    at rewrapped
  obtain ⟨rootedAt, isRoot, _, _, _, parentWrap, wrapped, sealed_, isSealed,
    rewrapped⟩ := rewrapped
  split at rewrapped
  · cases rewrapped
    exact walked.later _
  · next notHeld =>
      cases rewrapped
      simp only [Ledger.rotationOldKey, Ledger.currentKeyOf,
        Ledger.parentKeyFor, notHeld, Option.filter_none, bind_eq_ok,
        exists_unit, refuseIf_eq_ok, map_eq_ok] at isOld
      obtain ⟨notRoot, keyEnvelope, decoded, _, ⟨⟨parentKey, root⟩, isParent,
        rfl⟩, opened⟩ := isOld
      simp only [Ledger.rewrapRoot, Ledger.rootOf, notHeld,
        Option.filter_none, map_eq_ok, isParent, Except.ok.injEq,
        exists_eq_left'] at isRoot
      subst isRoot
      have opens : V.OpensTo node.keyEnvelope parentKey
          (node.wrappedContext workspaceId) old :=
        ⟨keyEnvelope, decoded, opened⟩
      have isIds : isUuid workspaceId = true ∧ isUuid node.id = true :=
        opens.isUuid
      refine (walked.later _).remember (slashless_of_isUuid isIds.1)
        (slashless_of_isUuid isIds.2) (walked.workspaceKeys isParent) ?_
      intro groupId isFamily version isRooted
      subst isRooted
      rcases walked.parent isFamily isParent with
        ⟨isTop, _, _⟩ | ⟨_, current, floor, isFloor, reached⟩
      · exact absurd ⟨isTop, (oneFamily holds isFamily).isArea⟩ notRoot
      · exact ⟨floor, isFloor, .carried reached current opens⟩

theorem slashless_of_currentKeyOf
    (walked : Walked ops ledger)
    {old : Key}
    (isOld : ledger.currentKeyOf workspaceId node = .ok old) :
    Slashless workspaceId ∧ Slashless node.id := by
  unfold Ledger.currentKeyOf at isOld
  split at isOld
  · next held found =>
      rw [Option.filter_eq_some_iff] at found
      obtain ⟨isWorkspace, isNode, _⟩ :=
        walked.ownKeyed (walked.nodeKey found.1)
      exact ⟨isWorkspace, isNode⟩
  · simp only [bind_eq_ok] at isOld
    obtain ⟨keyEnvelope, decoded, parentKey, _, opened⟩ := isOld
    have opens : V.OpensTo node.keyEnvelope parentKey
        (node.wrappedContext workspaceId) old :=
      ⟨keyEnvelope, decoded, opened⟩
    have isIds : isUuid workspaceId = true ∧ isUuid node.id = true :=
      opens.isUuid
    exact ⟨slashless_of_isUuid isIds.1, slashless_of_isUuid isIds.2⟩

/-- Rotating a key leaves the keys walked. -/
theorem rotateKey
    (walked : Walked before ((createAreaLedger V).run before))
    (holds : OpensHold before ((createAreaLedger V).run before))
    {targetEpoch : Nat}
    {fresh nonce : Bytes}
    {rekey : RekeyKeys → Except CryptoError Unit}
    {rotated : Rotated Unit}
    (isRotated : ((createAreaLedger V).run before).rotateKey workspaceId node
      targetEpoch fresh nonce rekey = .ok (rotated, after)) :
    Walked
      (before ++ [.rotateKey workspaceId node targetEpoch fresh nonce rekey])
      after := by
  simp only [Ledger.rotateKey, bind_eq_ok, exists_unit] at isRotated
  obtain ⟨_, old, isOld, isRotated⟩ := isRotated
  split at isRotated
  · simp only [bind_eq_ok, Except.ok.injEq, Prod.mk.injEq] at isRotated
    obtain ⟨⟨envelope, wrapped⟩, isWrapped, _, rfl⟩ := isRotated
    exact walked.rewrapAtTarget holds targetEpoch fresh rekey isOld isWrapped
  · simp only [Ledger.freshKeyParent, bind_eq_ok, exists_unit,
      Except.ok.injEq, Prod.mk.injEq] at isRotated
    obtain ⟨_, ⟨parentKey, rootedAt⟩, ⟨key, wrapped, ⟨current, root⟩,
      isParent, isBoth⟩, result, _, _, rfl⟩ := isRotated
    obtain ⟨rfl, rfl⟩ := isBoth
    simp only [Ledger.rotationOldKey, bind_eq_ok, exists_unit,
      refuseIf_eq_ok] at isOld
    obtain ⟨isWorkspace, isNode⟩ := walked.slashless_of_currentKeyOf isOld.2
    refine (walked.later _).setPending isWorkspace isNode
      (walked.workspaceKeys isParent) ?_
    intro groupId isFamily version isRooted
    dsimp only at isRooted
    subst isRooted
    rcases walked.parent isFamily isParent with
      ⟨isTop, _, _⟩ | ⟨_, isCurrent, floor, isFloor, reached⟩
    · exact absurd isTop
        (ne_of_wrapKeyFor (oneFamily holds isFamily) wrapped)
    · exact ⟨floor, isFloor, .walked reached isCurrent⟩

/-- Committing a pending key leaves the keys walked. -/
theorem commitOne
    (walked : Walked ops ledger)
    (workspaceId nodeId : String) :
    Walked ops (Ledger.commitOne workspaceId ledger nodeId) := by
  unfold Ledger.commitOne
  dsimp only
  split
  · exact walked
  · next pending isPending =>
      obtain ⟨isWorkspace, isNode, keyed⟩ := walked.pendingKeyed isPending
      have fewer : Walked ops { ledger with
          pendingNodeKeys :=
            ledger.pendingNodeKeys.erase (slot workspaceId nodeId) } := by
        refine walked.fewer rfl walked.noGuest ?_
          (fun _ _ found => ⟨found, rfl⟩) rfl rfl
        intro place other isOther
        rw [get?_erase] at isOther
        split at isOther
        · simp at isOther
        · exact isOther
      have keys := Ledger.sameKeys_rememberPrevNodeKey
        { ledger with
          pendingNodeKeys :=
            ledger.pendingNodeKeys.erase (slot workspaceId nodeId) }
        workspaceId nodeId pending.old pending.oldEpoch true
      have families := Ledger.sameFamilies_rememberPrevNodeKey
        { ledger with
          pendingNodeKeys :=
            ledger.pendingNodeKeys.erase (slot workspaceId nodeId) }
        workspaceId nodeId pending.old pending.oldEpoch true
      refine (fewer.same keys families).remember isWorkspace isNode ?_ ?_
      · rw [keys.workspaceKeys]
        exact keyed
      · intro groupId isFamily
        unfold Ledger.openedBy at isFamily
        rw [families.opened] at isFamily
        refine (walked.pending isFamily isPending).carry ?_
          (fun reached => reached)
        intro floor isFloor
        exact ⟨floor, by rw [families.floors]; exact isFloor, .refl floor⟩

theorem commitPending
    (walked : Walked ops ledger)
    (workspaceId : String)
    (nodeIds : List String) :
    Walked ops (ledger.commitPending workspaceId nodeIds) := by
  unfold Ledger.commitPending
  induction nodeIds generalizing ledger with
  | nil =>
    exact walked
  | cons nodeId rest inductionHypothesis =>
    exact inductionHypothesis (walked.commitOne workspaceId nodeId)

/-- Dropping pending keys leaves the keys walked. -/
theorem dropPending
    (walked : Walked ops ledger)
    (workspaceId : String)
    (nodeIds : List String) :
    Walked ops (ledger.dropPending workspaceId nodeIds) := by
  refine walked.fewer rfl walked.noGuest ?_ (fun _ _ found => ⟨found, rfl⟩)
    rfl rfl
  have dropping (nodeIds : List String)
      (pool : OrderedMap String PendingKey)
      {place : String}
      {pending : PendingKey}
      (found : (nodeIds.foldl
        (fun pending nodeId => pending.erase (slot workspaceId nodeId))
        pool).get? place = some pending) :
      pool.get? place = some pending := by
    induction nodeIds generalizing pool with
    | nil =>
      exact found
    | cons nodeId rest inductionHypothesis =>
      have earlier := inductionHypothesis _ found
      rw [get?_erase] at earlier
      split at earlier
      · simp at earlier
      · exact earlier
  exact fun _ _ found => dropping nodeIds ledger.pendingNodeKeys found

end Walked

end Worker

end HushOS
