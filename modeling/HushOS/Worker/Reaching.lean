import HushOS.Worker.Listing

namespace HushOS

open Toolkit List

namespace Worker

/-!
# How keys are reached

A key is reached in an area when its path begins at a root opened under the
area key at one version and goes on through envelopes opened or made under
each parent's current key, or under the fresh key of a walk (`Reached`).
-/

variable {V : Vault}

/-- A chain lists an area key at a version. -/
def Lists
    (chain : Accepted V.toPrimitives)
    (workspaceId : String)
    (version : Nat)
    (key : Key) :
    Prop :=
  ∃ commitment, V.areaKeyCommitment key = .ok commitment ∧
    (chain.val.areaKeys.listAt workspaceId)[version - 1]? = some commitment

/-- A chain committed to an area root's key at a version. -/
def CommitsRoot
    (chain : Accepted V.toPrimitives)
    (workspaceId : String)
    (version : Nat)
    (key : Key) :
    Prop :=
  ∃ commitment, V.areaRootCommitment key = .ok commitment ∧
    (chain.val.areaRoots.listAt workspaceId)[version - 1]? =
      some (some commitment)

/-- A chain committed to no root at a version: a format 1 roster lists it. -/
def Rootless
    (chain : Accepted V.toPrimitives)
    (workspaceId : String)
    (version : Nat) :
    Prop :=
  (chain.val.areaRoots.listAt workspaceId)[version - 1]? = some none

theorem commitsRoot_of_checkAreaRoot
    {chain : Accepted V.toPrimitives}
    {workspaceId : String}
    {version : Nat}
    {key : Key}
    {committed : Bool}
    (checked : checkAreaRoot chain workspaceId version key = .ok committed) :
    CommitsRoot chain workspaceId version key ∨
      Rootless chain workspaceId version := by
  simp only [checkAreaRoot, bind_eq_ok, exists_unit, refuseIf_eq_ok]
    at checked
  obtain ⟨_, _, _, _, checked⟩ := checked
  split at checked
  · simp at checked
  · next unlisted =>
      exact .inr unlisted
  · next listed isListed =>
      simp only [bind_eq_ok, exists_unit, refuseIf_eq_ok, not_not]
        at checked
      obtain ⟨commitment, isCommitment, rfl, _⟩ := checked
      exact .inl ⟨commitment, isCommitment, isListed⟩

/-- An envelope opens to a key under a parent's. -/
def Vault.OpensTo
    (V : Vault)
    (keyEnvelope : String)
    (parentKey : Key)
    (ctx : NodeKeyContext)
    (key : Key) :
    Prop :=
  ∃ envelope, decode keyEnvelope KEY_ENVELOPE_BYTES = .ok envelope ∧
    V.openNodeKey envelope parentKey ctx = .ok key

/--
The key a node has now at an epoch: a walk's fresh one, or the one held for
it unless a walk replaces that one.
-/
def Ledger.Current
    (ledger : Ledger V)
    (workspaceId nodeId : String)
    (key : Key)
    (epoch : Nat) :
    Prop :=
  (∃ pending, ledger.pendingNodeKeys.get? (slot workspaceId nodeId) =
      some pending ∧ pending.epoch = epoch ∧ pending.fresh = key) ∨
    ∃ held, ledger.nodeKey workspaceId nodeId = some held ∧
      held.epoch = epoch ∧ held.key = key ∧
      ∀ pending, ledger.pendingNodeKeys.get? (slot workspaceId nodeId) =
        some pending → pending.oldEpoch ≠ epoch

/-- An area's root opened by a listing, under the area key at a version. -/
structure RootOpened
    (chain : Accepted V.toPrimitives)
    (workspaceId : String)
    (version : Nat)
    (before : List (Op V))
    (node : ServedNodeKey)
    (areaKey rootKey : Key) : Prop where
  parent : node.parentId = workspaceId
  epoch : node.parentKeyEpoch = version
  held : ((createAreaLedger V).run before).workspaceKey workspaceId version =
    some areaKey
  listed : Lists chain workspaceId version areaKey
  opened : V.OpensTo node.keyEnvelope areaKey (node.context workspaceId)
    rootKey
  committed : CommitsRoot chain workspaceId version rootKey ∨
    Rootless chain workspaceId version

/--
A key of a node of an area, reached by operations from the area key at a
version: through a root, then from each parent's current key to its child's.
-/
inductive Reached
    (chain : Accepted V.toPrimitives)
    (workspaceId : String)
    (version : Nat) :
    List (Op V) → String → Key → Nat → Prop where
  | root
      {before : List (Op V)}
      {node : ServedNodeKey}
      {areaKey rootKey : Key}
      (opened : RootOpened chain workspaceId version before node areaKey
        rootKey) :
      Reached chain workspaceId version
        (before ++ [.openListedNode workspaceId node]) node.id rootKey
        node.keyEpoch
  | opened
      {before : List (Op V)}
      {node : ServedNodeKey}
      {parentKey key : Key}
      (parent : Reached chain workspaceId version before node.parentId
        parentKey node.parentKeyEpoch)
      (current : ((createAreaLedger V).run before).Current workspaceId
        node.parentId parentKey node.parentKeyEpoch)
      (opened : V.OpensTo node.keyEnvelope parentKey
        (node.context workspaceId) key) :
      Reached chain workspaceId version
        (before ++ [.openListedNode workspaceId node]) node.id key
        node.keyEpoch
  | made
      {before : List (Op V)}
      {node : NewNodeKey}
      {key nonce : Bytes}
      {parentKey : Key}
      (parent : Reached chain workspaceId version before node.parentId
        parentKey node.parentKeyEpoch)
      (current : ((createAreaLedger V).run before).Current workspaceId
        node.parentId parentKey node.parentKeyEpoch) :
      Reached chain workspaceId version
        (before ++ [.newNodeKey workspaceId node key nonce]) node.id key
        node.keyEpoch
  | walked
      {before : List (Op V)}
      {node : RotatingNodeKey}
      {targetEpoch : Nat}
      {fresh nonce : Bytes}
      {rekey : RekeyKeys → Except CryptoError Unit}
      {parentKey : Key}
      (parent : Reached chain workspaceId version before node.parentId
        parentKey node.parentKeyEpoch)
      (current : ((createAreaLedger V).run before).Current workspaceId
        node.parentId parentKey node.parentKeyEpoch) :
      Reached chain workspaceId version
        (before ++ [.rotateKey workspaceId node targetEpoch fresh nonce
          rekey]) node.id fresh targetEpoch
  | carried
      {before : List (Op V)}
      {node : RotatingNodeKey}
      {targetEpoch : Nat}
      {fresh nonce : Bytes}
      {rekey : RekeyKeys → Except CryptoError Unit}
      {parentKey key : Key}
      (parent : Reached chain workspaceId version before node.parentId
        parentKey node.wrappedParentKeyEpoch)
      (current : ((createAreaLedger V).run before).Current workspaceId
        node.parentId parentKey node.wrappedParentKeyEpoch)
      (opened : V.OpensTo node.keyEnvelope parentKey
        (node.wrappedContext workspaceId) key) :
      Reached chain workspaceId version
        (before ++ [.rotateKey workspaceId node targetEpoch fresh nonce
          rekey]) node.id key node.keyEpoch
  | later
      {before : List (Op V)}
      {nodeId : String}
      {key : Key}
      {epoch : Nat}
      (reached : Reached chain workspaceId version before nodeId key epoch)
      (op : Op V) :
      Reached chain workspaceId version (before ++ [op]) nodeId key epoch

theorem Lists.carry
    {earlier later : Accepted V.toPrimitives}
    (carries : Carries earlier later)
    {workspaceId : String}
    {version : Nat}
    {key : Key}
    (lists : Lists earlier workspaceId version key) :
    Lists later workspaceId version key := by
  obtain ⟨commitment, isCommitment, listed⟩ := lists
  exact ⟨commitment, isCommitment,
    getElem?_of_begins (carries.keys workspaceId) listed⟩

namespace Reached

variable {workspaceId : String} {version : Nat} {ops : List (Op V)}
  {nodeId : String} {key : Key} {epoch : Nat}

/-- What was reached under a chain is reached under one carrying on. -/
theorem carry
    {earlier later : Accepted V.toPrimitives}
    (carries : Carries earlier later)
    (reached : Reached earlier workspaceId version ops nodeId key epoch) :
    Reached later workspaceId version ops nodeId key epoch := by
  induction reached with
  | root opened =>
    refine .root { opened with
      listed := opened.listed.carry carries
      committed := ?_ }
    rcases opened.committed with ⟨commitment, isCommitment, listed⟩ | none_
    · exact .inl ⟨commitment, isCommitment,
        getElem?_of_begins (carries.roots workspaceId) listed⟩
    · exact .inr (getElem?_of_begins (carries.roots workspaceId) none_)
  | opened _ current opened inductionHypothesis =>
    exact .opened inductionHypothesis current opened
  | made _ current inductionHypothesis =>
    exact .made inductionHypothesis current
  | walked _ current inductionHypothesis =>
    exact .walked inductionHypothesis current
  | carried _ current opened inductionHypothesis =>
    exact .carried inductionHypothesis current opened
  | later _ op inductionHypothesis =>
    exact .later inductionHypothesis op

/-- What was reached was reached from an opened root. -/
theorem exists_root
    {chain : Accepted V.toPrimitives}
    (reached : Reached chain workspaceId version ops nodeId key epoch) :
    ∃ before node areaKey rootKey,
      before ++ [.openListedNode workspaceId node] <+: ops ∧
        RootOpened chain workspaceId version before node areaKey rootKey := by
  induction reached with
  | root opened =>
    exact ⟨_, _, _, _, prefix_rfl, opened⟩
  | opened _ _ _ inductionHypothesis =>
    obtain ⟨before, node, areaKey, rootKey, begins, opened⟩ :=
      inductionHypothesis
    exact ⟨before, node, areaKey, rootKey,
      begins.trans (prefix_append _ _), opened⟩
  | made _ _ inductionHypothesis =>
    obtain ⟨before, node, areaKey, rootKey, begins, opened⟩ :=
      inductionHypothesis
    exact ⟨before, node, areaKey, rootKey,
      begins.trans (prefix_append _ _), opened⟩
  | walked _ _ inductionHypothesis =>
    obtain ⟨before, node, areaKey, rootKey, begins, opened⟩ :=
      inductionHypothesis
    exact ⟨before, node, areaKey, rootKey,
      begins.trans (prefix_append _ _), opened⟩
  | carried _ _ _ inductionHypothesis =>
    obtain ⟨before, node, areaKey, rootKey, begins, opened⟩ :=
      inductionHypothesis
    exact ⟨before, node, areaKey, rootKey,
      begins.trans (prefix_append _ _), opened⟩
  | later _ op inductionHypothesis =>
    obtain ⟨before, node, areaKey, rootKey, begins, opened⟩ :=
      inductionHypothesis
    exact ⟨before, node, areaKey, rootKey,
      begins.trans (prefix_append _ _), opened⟩

end Reached

/-- Two ledgers that hold the same keys, previous ones apart. -/
structure SameKeys (before after : Ledger V) : Prop where
  workspaceKeys : after.workspaceKeys = before.workspaceKeys
  ownNodeKeys : after.ownNodeKeys = before.ownNodeKeys
  guestNodeKeys : after.guestNodeKeys = before.guestNodeKeys
  lineage : after.lineage = before.lineage
  pendingNodeKeys : after.pendingNodeKeys = before.pendingNodeKeys

theorem SameKeys.refl (ledger : Ledger V) : SameKeys ledger ledger :=
  ⟨rfl, rfl, rfl, rfl, rfl⟩

theorem SameKeys.trans
    {first second third : Ledger V}
    (before : SameKeys first second)
    (after : SameKeys second third) :
    SameKeys first third :=
  ⟨after.workspaceKeys.trans before.workspaceKeys,
    after.ownNodeKeys.trans before.ownNodeKeys,
    after.guestNodeKeys.trans before.guestNodeKeys,
    after.lineage.trans before.lineage,
    after.pendingNodeKeys.trans before.pendingNodeKeys⟩

variable {ctx : NodeKeyContext}

theorem isUuid_of_nodeKeyContext
    {aad : Bytes}
    (sealed_ : nodeKeyContext ctx = .ok aad) :
    isUuid ctx.workspaceId = true ∧ isUuid ctx.nodeId = true := by
  simp only [nodeKeyContext, labelledContext, contextId, bind_eq_ok,
    exists_unit, refuseIf_eq_ok, Bool.not_eq_false] at sealed_
  obtain ⟨_, ⟨isWorkspace, _⟩, _, ⟨isNode, _⟩, _⟩ := sealed_
  exact ⟨isWorkspace, isNode⟩

theorem Vault.OpensTo.isUuid
    {keyEnvelope : String}
    {parentKey key : Key}
    (opens : V.OpensTo keyEnvelope parentKey ctx key) :
    isUuid ctx.workspaceId = true ∧ isUuid ctx.nodeId = true := by
  obtain ⟨envelope, _, opened⟩ := opens
  simp only [Vault.openNodeKey, Vault.openKey, bind_eq_ok, exists_unit]
    at opened
  obtain ⟨_, aad, sealed_, _⟩ := opened
  exact isUuid_of_nodeKeyContext sealed_

theorem isUuid_of_wrapNodeKey
    {nonce nodeKey parentKey envelope : Bytes}
    (wrapped : V.wrapNodeKey nonce nodeKey parentKey ctx = .ok envelope) :
    isUuid ctx.workspaceId = true ∧ isUuid ctx.nodeId = true := by
  simp only [Vault.wrapNodeKey, bind_eq_ok, exists_unit] at wrapped
  obtain ⟨_, aad, sealed_, _⟩ := wrapped
  exact isUuid_of_nodeKeyContext sealed_

namespace Ledger

variable {ledger after : Ledger V} {workspaceId : String}

theorem sameKeys_rootSeen
    (ledger : Ledger V)
    (workspaceId nodeId : String)
    (epoch : Nat)
    (key : Key) :
    SameKeys ledger (ledger.rootSeen workspaceId nodeId epoch key).2 := by
  unfold rootSeen
  split
  · split
    · exact .refl ledger
    · split
      · exact .refl ledger
      · dsimp only
        split
        · split
          · exact ⟨rfl, rfl, rfl, rfl, rfl⟩
          · exact .refl ledger
        · exact ⟨rfl, rfl, rfl, rfl, rfl⟩
  · exact .refl ledger

theorem sameKeys_rememberPrevNodeKey
    (ledger : Ledger V)
    (workspaceId nodeId : String)
    (key : Key)
    (epoch : Nat)
    (own : Bool) :
    SameKeys ledger
      (ledger.rememberPrevNodeKey workspaceId nodeId key epoch own) := by
  unfold rememberPrevNodeKey withPrevNodeKeys
  split
  · exact ⟨rfl, rfl, rfl, rfl, rfl⟩
  · exact ⟨rfl, rfl, rfl, rfl, rfl⟩

theorem sameKeys_keepPrevious
    (ledger : Ledger V)
    (workspaceId : String)
    (node : ServedNodeKey)
    (areaRoot : Bool)
    (heldPrevious : Option Key) :
    SameKeys ledger
      (ledger.keepPrevious workspaceId node areaRoot heldPrevious) := by
  unfold keepPrevious
  split
  · split
    · exact .refl ledger
    · dsimp only
      split
      · exact ledger.sameKeys_rememberPrevNodeKey _ _ _ _ _
      · exact ledger.sameKeys_rememberPrevNodeKey _ _ _ _ _
      · exact .refl ledger
  · exact .refl ledger

/-- An opened envelope opens under the parent's key. -/
theorem openEnvelope_parts
    {node : ServedNodeKey}
    {key : Key}
    (isOpened : ledger.openEnvelope workspaceId node = .ok (key, after)) :
    ∃ parentKey rootedAt,
      ledger.parentKeyAndRoot workspaceId node.parentId node.parentKeyEpoch =
          .ok (parentKey, rootedAt) ∧
        V.OpensTo node.keyEnvelope parentKey (node.context workspaceId)
          key ∧
        ledger.heldBack workspaceId = false ∧
        SameKeys
          (ledger.rememberNodeKey workspaceId node.id key node.keyEpoch
            rootedAt) after := by
  simp only [openEnvelope, bind_eq_ok, exists_unit, refuseIf_eq_ok,
    Bool.not_eq_true] at isOpened
  obtain ⟨⟨parentKey, rootedAt⟩, isParent, envelope, decoded, found, opened,
    notHeld, isOpened⟩ := isOpened
  refine ⟨parentKey, rootedAt, isParent, ?_⟩
  split at isOpened
  · cases isOpened
    exact ⟨⟨envelope, decoded, opened⟩, notHeld, ⟨rfl, rfl, rfl, rfl, rfl⟩⟩
  · cases isOpened
    exact ⟨⟨envelope, decoded, opened⟩, notHeld, .refl _⟩

theorem sameKeys_dropRoot
    (same : SameKeys ledger after)
    (workspaceId nodeId : String) :
    SameKeys (ledger.forgetNodeKey workspaceId nodeId)
      (after.dropRoot workspaceId nodeId) := by
  unfold Ledger.dropRoot Ledger.forgetNodeKey Ledger.withNodeKeys
  rw [same.workspaceKeys]
  split
  · exact ⟨rfl, by
      show OrderedMap.erase _ _ = _
      rw [same.ownNodeKeys], same.guestNodeKeys, same.lineage,
      same.pendingNodeKeys⟩
  · exact ⟨rfl, same.ownNodeKeys, by
      show OrderedMap.erase _ _ = _
      rw [same.guestNodeKeys], same.lineage, same.pendingNodeKeys⟩

/--
What a listed node leaves of the keys: the same, those with the node's key
opened and, for an area's root, found to be one that holds, or those without
the node's key.
-/
theorem openListedNode_cases
    (ledger : Ledger V)
    (workspaceId : String)
    (node : ServedNodeKey) :
    SameKeys ledger (ledger.openListedNode workspaceId node).2 ∨
      (∃ key taken,
        ledger.openEnvelope workspaceId node = .ok (key, taken) ∧
          (ledger.isAreaRoot workspaceId node = true →
            (taken.rootSeen workspaceId node.id node.parentKeyEpoch key).1 =
              true) ∧
          SameKeys taken (ledger.openListedNode workspaceId node).2) ∨
      ∃ taken,
        (taken = ledger ∨ ∃ key,
          ledger.openEnvelope workspaceId node = .ok (key, taken)) ∧
          SameKeys (taken.forgetNodeKey workspaceId node.id)
            (ledger.openListedNode workspaceId node).2 := by
  have taking {key : Key} {taken : Ledger V}
      (isTaken : ledger.takeListed workspaceId node = .ok (key, taken)) :
      taken = ledger ∨
        ledger.openEnvelope workspaceId node = .ok (key, taken) := by
    unfold takeListed at isTaken
    split at isTaken
    · simp only [Except.ok.injEq, Prod.mk.injEq] at isTaken
      exact .inl isTaken.2.symm
    · exact .inr isTaken
  unfold openListedNode
  dsimp only
  split
  · exact .inl (.refl ledger)
  · split
    · exact .inl (.refl ledger)
    · split
      · exact .inl (.refl ledger)
      · next key taken isTaken =>
          cases isRoot : ledger.isAreaRoot workspaceId node with
          | false =>
            have kept := taken.sameKeys_keepPrevious workspaceId node false
              (ledger.heldPrevious workspaceId node)
            have keys : SameKeys taken
                (if (taken.keepPrevious workspaceId node false
                      (ledger.heldPrevious workspaceId node)).heldBack
                        workspaceId then
                  ((.error NO_CHAIN : Except CryptoError Key),
                    taken.keepPrevious workspaceId node false
                      (ledger.heldPrevious workspaceId node))
                else
                  (.ok key, taken.keepPrevious workspaceId node false
                    (ledger.heldPrevious workspaceId node))).2 := by
              split
              · exact kept
              · exact kept
            simp only [Bool.false_eq_true, ↓reduceIte]
            rcases taking isTaken with rfl | opened
            · exact .inl keys
            · exact .inr (.inl ⟨key, taken, opened, by simp, keys⟩)
          | true =>
            have seen := taken.sameKeys_rootSeen workspaceId node.id
              node.parentKeyEpoch key
            simp only [↓reduceIte]
            cases holds : (taken.rootSeen workspaceId node.id
                node.parentKeyEpoch key).1 with
            | false =>
              simp only [Bool.false_eq_true, ↓reduceIte]
              refine .inr (.inr ⟨taken, ?_, ?_⟩)
              · rcases taking isTaken with same | opened
                · exact .inl same
                · exact .inr ⟨key, opened⟩
              · exact sameKeys_dropRoot seen workspaceId node.id
            | true =>
              have kept := seen.trans
                (Ledger.sameKeys_keepPrevious _ workspaceId node true
                  (ledger.heldPrevious workspaceId node))
              simp only [↓reduceIte]
              rcases taking isTaken with rfl | opened
              · refine .inl ?_
                split
                · exact kept
                · exact kept
              · refine .inr (.inl ⟨key, taken, opened,
                  fun _ => holds, ?_⟩)
                split
                · exact kept
                · exact kept

end Ledger

end Worker

end HushOS
