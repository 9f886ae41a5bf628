import HushOS.Worker.AreaToy
import HushOS.Worker.Stepping

namespace HushOS

open Toolkit List OrderedMap

namespace Worker

/-!
# Keys handed out to write

After any operations a session asks of one ledger, a key handed out to write
into a family's area was reached from the area key at the version the family's
committed chain lists as latest (`Ledger.handed`).
-/

variable {V : Vault}

/-- Whether an operation is one that a session on its areas asks. -/
def Op.walks : Op V → Bool
  | .commit _ | .uncommit _ | .owe _ | .kept _ | .forgetGroup _
  | .openArea _ _ _ _ _ _ | .dropWorkspace _ | .openListedNode _ _
  | .newNodeKey _ _ _ _ | .rotateKey _ _ _ _ _ _ | .rewrapNode _ _ _
  | .commitPending _ _ | .dropPending _ _ => true
  | _ => false

variable {messages : Set Bytes} {format : RosterFormat}

/-- Every operation of a walk keeps its keys walked. -/
theorem Walked.step
    {before : List (Op V)}
    (walked : Walked before ((createAreaLedger V).run before))
    (ratchet : Ratchet messages ((createAreaLedger V).run before))
    (apart : Set.InjOn V.sha256 messages)
    (holds : OpensHold before ((createAreaLedger V).run before))
    {op : Op V}
    (walks : op.walks = true)
    (stated : ∀ chain, op = .commit chain → chain.statements ⊆ messages) :
    Walked (before ++ [op]) (((createAreaLedger V).run before).step op) := by
  have later := walked.later op
  cases op with
  | commit chain =>
    simp only [Ledger.step]
    split
    · next committed =>
        exact later.commit ratchet apart (stated chain rfl) committed
    · exact later
  | uncommit groupId =>
    exact later.uncommit groupId
  | owe _ | kept _ =>
    exact later.keep ⟨rfl, rfl, rfl, rfl, rfl⟩ rfl
      (fun _ floor isFloor => ⟨floor, isFloor, .refl floor⟩)
  | forgetGroup groupId =>
    exact later.forgetGroup groupId
  | openArea groupId workspaceId idSeed version key served =>
    simp only [Ledger.step]
    cases isOpened : ((createAreaLedger V).run before).openArea groupId
        workspaceId idSeed version key served with
    | error reason =>
      exact later
    | ok found =>
      obtain ⟨block, after⟩ := found
      obtain ⟨chain, latest, opens, rfl, _⟩ :=
        Ledger.openArea_eq_ok.mp isOpened
      exact later.openArea ratchet apart opens served
  | dropWorkspace workspaceId =>
    exact later.dropWorkspace workspaceId
  | openListedNode workspaceId node =>
    exact walked.openListedNode ratchet apart holds workspaceId node
  | newNodeKey workspaceId node key nonce =>
    simp only [Ledger.step]
    cases isMade : ((createAreaLedger V).run before).newNodeKey workspaceId
        node key nonce with
    | error reason =>
      exact later
    | ok found =>
      exact walked.newNodeKey holds isMade
  | rotateKey workspaceId node targetEpoch fresh nonce rekey =>
    simp only [Ledger.step]
    cases isRotated : ((createAreaLedger V).run before).rotateKey
        workspaceId node targetEpoch fresh nonce rekey with
    | error reason =>
      exact later
    | ok found =>
      exact walked.rotateKey holds isRotated
  | rewrapNode _ _ _ =>
    exact later
  | commitPending workspaceId nodeIds =>
    exact later.commitPending workspaceId nodeIds
  | dropPending workspaceId nodeIds =>
    exact later.dropPending workspaceId nodeIds
  | _ =>
    simp [Op.walks] at walks

theorem statementsGiven_mono
    {ops more : List (Op V)}
    (within : ops ⊆ more) :
    statementsGiven ops ⊆ statementsGiven more := by
  rintro statement ⟨chain, member, isStatement⟩
  exact ⟨chain, within member, isStatement⟩

theorem Ratchet.run
    (apart : Set.InjOn V.sha256 messages)
    {ops : List (Op V)}
    (stated : statementsGiven ops ⊆ messages) :
    Ratchet messages ((createAreaLedger V).run ops) := by
  induction ops using List.reverseRecOn with
  | nil =>
    exact .start
  | append_singleton before op inductionHypothesis =>
    rw [Ledger.run_append]
    refine (inductionHypothesis ((statementsGiven_mono
      (subset_append_left _ _)).trans stated)).step apart ?_
    rintro chain rfl
    exact fun statement isStatement =>
      stated ⟨chain, by simp, isStatement⟩

/-- A whole run of walks keeps its keys walked. -/
theorem Walked.run
    (apart : Set.InjOn V.sha256 messages)
    {ops : List (Op V)}
    (walks : ∀ op ∈ ops, op.walks = true)
    (stated : statementsGiven ops ⊆ messages) :
    Walked ops ((createAreaLedger V).run ops) := by
  induction ops using List.reverseRecOn with
  | nil =>
    exact .start
  | append_singleton before op inductionHypothesis =>
    have earlier : statementsGiven before ⊆ messages :=
      (statementsGiven_mono (subset_append_left _ _)).trans stated
    have walked := inductionHypothesis
      (fun other member => walks other (by simp [member])) earlier
    have holds : OpensHold before ((createAreaLedger V).run before) := by
      have run := OpensHold.start.run before
      rwa [nil_append] at run
    rw [Ledger.run_append]
    refine walked.step (Ratchet.run apart earlier) apart holds
      (walks op (by simp)) ?_
    rintro chain rfl
    exact fun statement isStatement =>
      stated ⟨chain, by simp, isStatement⟩

namespace Ledger

variable {ledger : Ledger V} {workspaceId nodeId : String}

/-- A key rooted now is rooted at the chain's write version. -/
theorem exists_chain_of_rootedNow
    {messages : Set Bytes}
    (ratchet : Ratchet messages ledger)
    {ops : List (Op V)}
    (holds : OpensHold ops ledger)
    (isArea : ledger.isArea workspaceId = true)
    {rootedAt : Option Nat}
    (rooted : ledger.rootedNow workspaceId rootedAt = .ok true) :
    ∃ groupId chain version,
      ledger.openedBy workspaceId = [groupId] ∧
        ledger.chains.get? groupId = some chain ∧
        areaWriteVersion chain workspaceId = some version ∧
        rootedAt = some version := by
  unfold rootedNow at rooted
  split at rooted
  · simp at rooted
  · next version =>
      simp only [map_eq_ok, writeVersion, bind_eq_ok, readAt, if_pos isArea]
        at rooted
      obtain ⟨written, ⟨found, isRead, isWritten⟩, isVersion⟩ := rooted
      rw [decide_eq_true_eq] at isVersion
      subst isVersion
      split at isRead
      · simp at isRead
      · next groupId isFamily =>
          have isOpened : ledger.openedBy workspaceId = [groupId] := by
            unfold familyOf at isFamily
            split at isFamily
            · next family opened =>
                rw [opened, Option.some.inj isFamily]
            · simp at isFamily
          have opens := mem_openedBy.mp
            (isOpened ▸ mem_singleton_self groupId)
          split at isRead
          · simp at isRead
          · next current isCurrent =>
              obtain rfl := Except.ok.inj isRead
              simp only [bind_eq_ok, exists_unit, refuseIf_eq_ok,
                Except.ok.injEq, Option.some.injEq] at isWritten
              obtain ⟨_, _, _, rfl⟩ := isWritten
              obtain ⟨chain, isChain, isListed⟩ := ratchet.areaWrite
                (slashless_of_isUuid (holds.isGroup opens))
                (slashless_of_isUuid (holds.isWorkspace opens)) isCurrent
              exact ⟨groupId, chain, current, isOpened, isChain, isListed,
                rfl⟩

/-- A ledger hands out a node's key to write. -/
def Hands
    (ledger : Ledger V)
    (workspaceId nodeId : String)
    (key : Key)
    (epoch : Nat) :
    Prop :=
  ledger.wrapKeyFor workspaceId nodeId epoch = .ok key ∨
    ∃ held, ledger.writableNodeKey workspaceId nodeId = .ok (some held) ∧
      held.key = key ∧ held.epoch = epoch

/-- A key handed out of an area is rooted now. -/
theorem rootedNow_of_hands
    (isArea : ledger.isArea workspaceId = true)
    {key : Key}
    {epoch : Nat}
    (hands : ledger.Hands workspaceId nodeId key epoch) :
    (∃ pending, ledger.pendingNodeKeys.get? (slot workspaceId nodeId) =
        some pending ∧ pending.fresh = key ∧ pending.epoch = epoch ∧
        ledger.rootedNow workspaceId pending.rootedAt = .ok true) ∨
      ∃ held, ledger.nodeKey workspaceId nodeId = some held ∧
        held.key = key ∧ held.epoch = epoch ∧
        ledger.rootedAtWriteVersion workspaceId nodeId = .ok true := by
  rcases hands with wrapped | ⟨held, isWritable, isKey, isEpoch⟩
  · simp only [wrapKeyFor, bind_eq_ok, exists_unit, isArea] at wrapped
    obtain ⟨_, wrapped⟩ := wrapped
    split at wrapped
    · simp at wrapped
    · rw [if_pos trivial] at wrapped
      unfold areaWrapKey at wrapped
      dsimp only at wrapped
      split at wrapped
      · next pending found =>
          rw [Option.filter_eq_some_iff, decide_eq_true_eq] at found
          simp only [bind_eq_ok, exists_unit, refuseIf_eq_ok,
            Bool.not_eq_false, Except.ok.injEq] at wrapped
          obtain ⟨rooted, isRooted, rfl, isKey⟩ := wrapped
          exact .inl ⟨pending, found.1, isKey, found.2, isRooted⟩
      · split at wrapped
        · simp at wrapped
        · next held isHeld =>
            simp only [bind_eq_ok, exists_unit, refuseIf_eq_ok, not_not,
              Bool.not_eq_false, Except.ok.injEq] at wrapped
            obtain ⟨rooted, isRooted, rfl, ⟨isEpoch, _⟩, isKey⟩ := wrapped
            exact .inr ⟨held, isHeld, isKey, isEpoch, isRooted⟩
  · simp only [writableNodeKey, bind_eq_ok, exists_unit, isArea]
      at isWritable
    obtain ⟨_, _, isWritable⟩ := isWritable
    split at isWritable
    · simp at isWritable
    · next node isNode =>
        simp only [↓reduceIte, bind_eq_ok, exists_unit, refuseIf_eq_ok,
          Bool.not_eq_false, Except.ok.injEq, Option.some.injEq] at isWritable
        obtain ⟨rooted, isRooted, rfl, rfl⟩ := isWritable
        exact .inr ⟨node, isNode, isKey, isEpoch, isRooted⟩

/-- An area with nothing of its root yet, whose chain lists a version. -/
structure Unrooted
    (ledger : Ledger V)
    (groupId workspaceId : String)
    (node : ServedNodeKey)
    (chain : Accepted V.toPrimitives) : Prop where
  one : OneFamily groupId workspaceId ledger
  isChain : ledger.chains.get? groupId = some chain
  keyed : ledger.workspaceKeys.has workspaceId = true
  isWritten : ledger.areaWrite.get? (areaSlot groupId workspaceId) =
    some node.parentKeyEpoch
  notHeld : ledger.ownNodeKeys.get? (slot workspaceId node.id) = none
  notPending : ledger.pendingNodeKeys.get? (slot workspaceId node.id) = none
  unnamed : ledger.rootIds.get? (areaSlot groupId workspaceId) = none
  unseen : ledger.rootSeenAt.get? (areaSlot groupId workspaceId) = none
  notBlocked : ledger.blocked.get? (areaSlot groupId workspaceId) = none
  notOwed : groupId ∉ ledger.guardOwed

/-- A root that opens and that the chain lets hold, held. -/
def rooting
    (ledger : Ledger V)
    (groupId workspaceId : String)
    (node : ServedNodeKey)
    (rootKey : Key) :
    Ledger V :=
  { ledger with
    ownNodeKeys := ledger.ownNodeKeys.set (slot workspaceId node.id)
      { key := rootKey, epoch := node.keyEpoch }
    lineage := ledger.lineage.set (slot workspaceId node.id)
      (some node.parentKeyEpoch)
    rootOpenedUnder :=
      (ledger.rootOpenedUnder.erase (slot workspaceId node.id)).set
        (slot workspaceId node.id) node.parentKeyEpoch
    rootSeenAt := ledger.rootSeenAt.set (areaSlot groupId workspaceId)
      node.parentKeyEpoch
    rootIds := ledger.rootIds.set (areaSlot groupId workspaceId) node.id }

/-- A listed root opens under the area's key and is checked. -/
theorem openListedNode_root
    {groupId : String}
    {node : ServedNodeKey}
    {chain : Accepted V.toPrimitives}
    (unrooted : ledger.Unrooted groupId workspaceId node chain)
    (isTop : node.parentId = workspaceId)
    (noPrevious : node.prevKeyEnvelope = none)
    {areaKey rootKey : Key}
    (isKey : ledger.workspaceKey workspaceId node.parentKeyEpoch =
      some areaKey)
    (opens : V.OpensTo node.keyEnvelope areaKey (node.context workspaceId)
      rootKey)
    {committed : Bool}
    (checked : checkAreaRoot chain workspaceId node.parentKeyEpoch rootKey =
      .ok committed) :
    ledger.openListedNode workspaceId node =
      (.ok rootKey, ledger.rooting groupId workspaceId node rootKey) := by
  have one := unrooted.one
  have notBack : ledger.heldBack workspaceId = false := by
    rw [one.heldBack, Bool.not_eq_false', has_iff,
      OrderedMap.mem_keys]
    exact ⟨chain, unrooted.isChain⟩
  have isRoot : ledger.isAreaRoot workspaceId node = true := by
    simp [isAreaRoot, isTop, one.isArea]
  have isNamed : ledger.notTheRoot workspaceId node.id = false := by
    simp [notTheRoot, one.familyOf, unrooted.unnamed]
  have notHeld : ledger.nodeKey workspaceId node.id = none := by
    simp [nodeKey, notBack, nodeKeysOf, unrooted.keyed, unrooted.notHeld]
  have isParent : ledger.parentKeyAndRoot workspaceId node.parentId
      node.parentKeyEpoch = .ok (areaKey, some node.parentKeyEpoch) := by
    unfold workspaceKey at isKey
    rw [Option.bind_eq_some_iff] at isKey
    obtain ⟨entry, isEntry, isKey⟩ := isKey
    simp [parentKeyAndRoot, isTop, isEntry, isKey]
  obtain ⟨taken, isTaken⟩ : ∃ taken : Ledger V, taken =
      { ledger with
        ownNodeKeys := ledger.ownNodeKeys.set (slot workspaceId node.id)
          { key := rootKey, epoch := node.keyEpoch }
        lineage := ledger.lineage.set (slot workspaceId node.id)
          (some node.parentKeyEpoch)
        rootOpenedUnder :=
          (ledger.rootOpenedUnder.erase (slot workspaceId node.id)).set
            (slot workspaceId node.id) node.parentKeyEpoch } :=
    ⟨_, rfl⟩
  have taking : ledger.takeListed workspaceId node = .ok (rootKey, taken) := by
    obtain ⟨envelope, decoded, opened⟩ := opens
    simp [takeListed, cachedFor, notHeld, openEnvelope, isParent, decoded,
      opened, notBack, isRoot, rememberNodeKey, withNodeKeys,
      unrooted.keyed, refuseIf, isTaken]
  have families : SameFamilies ledger taken := by
    rw [isTaken]
    exact ⟨rfl, rfl, rfl, rfl, rfl, rfl, rfl⟩
  have seen : taken.rootSeen workspaceId node.id node.parentKeyEpoch
      rootKey =
        (true, ledger.rooting groupId workspaceId node rootKey) := by
    have same := one.of_sameFamilies families
    have isChain : taken.chains.get? groupId = some chain := by
      rw [families.chains]
      exact unrooted.isChain
    unfold rootSeen
    rw [if_pos same.isArea, same.familyOf]
    dsimp only
    rw [isChain]
    dsimp only
    rw [checked, isTaken]
    simp [unrooted.unseen, unrooted.unnamed, unrooted.isWritten, rooting,
      has_iff, OrderedMap.mem_keys]
  have back : (ledger.rooting groupId workspaceId node rootKey).heldBack
      workspaceId = false := notBack
  unfold openListedNode
  simp only [notBack, isRoot, isNamed, taking, seen, Bool.false_eq_true,
    Bool.and_false, ↓reduceIte, keepPrevious, noPrevious, back]

/-- A root just opened is handed out. -/
theorem hands_rooting
    {groupId : String}
    {node : ServedNodeKey}
    {chain : Accepted V.toPrimitives}
    (unrooted : ledger.Unrooted groupId workspaceId node chain)
    (isNode : node.id ≠ workspaceId)
    (rootKey : Key) :
    (ledger.rooting groupId workspaceId node rootKey).isArea workspaceId =
        true ∧
      (ledger.rooting groupId workspaceId node rootKey).wrapKeyFor
        workspaceId node.id node.keyEpoch = .ok rootKey := by
  have families : SameFamilies ledger
      (ledger.rooting groupId workspaceId node rootKey) :=
    ⟨rfl, rfl, rfl, rfl, rfl, rfl, rfl⟩
  have one := unrooted.one.of_sameFamilies families
  have notBack : (ledger.rooting groupId workspaceId node rootKey).heldBack
      workspaceId = false := by
    rw [one.heldBack, Bool.not_eq_false', has_iff,
      OrderedMap.mem_keys]
    exact ⟨chain, unrooted.isChain⟩
  have written : (ledger.rooting groupId workspaceId node
      rootKey).writeVersion workspaceId = .ok (some node.parentKeyEpoch) := by
    have isWritten : (ledger.rooting groupId workspaceId node
        rootKey).areaWrite.get? (areaSlot groupId workspaceId) =
          some node.parentKeyEpoch := unrooted.isWritten
    have notBlocked : (ledger.rooting groupId workspaceId node
        rootKey).blocked.has (areaSlot groupId workspaceId) = false := by
      rw [← Bool.not_eq_true, has_iff, OrderedMap.mem_keys]
      rintro ⟨reason, isBlocked⟩
      exact Option.some_ne_none reason
        (isBlocked.symm.trans unrooted.notBlocked)
    have isSeen : (ledger.rooting groupId workspaceId node
        rootKey).rootSeenAt.get? (areaSlot groupId workspaceId) =
          some node.parentKeyEpoch := by
      simp [rooting, get?_set]
    rw [writeVersion, one.readAt, isWritten]
    simp only [ok_bind, notBlocked, isSeen, Option.any_some, lt_irrefl,
      decide_false, refuseIf, Bool.false_eq_true, ne_eq, not_true_eq_false,
      ↓reduceIte]
  have held : (ledger.rooting groupId workspaceId node rootKey).nodeKey
      workspaceId node.id = some { key := rootKey, epoch := node.keyEpoch } := by
    have keyed : (ledger.rooting groupId workspaceId node
        rootKey).workspaceKeys.has workspaceId = true := unrooted.keyed
    rw [nodeKey, notBack, nodeKeysOf, keyed]
    simp [rooting, get?_set]
  have rooted : (ledger.rooting groupId workspaceId node
      rootKey).rootedAtWriteVersion workspaceId node.id = .ok true := by
    have isRooted : (ledger.rooting groupId workspaceId node
        rootKey).rootedAtOf workspaceId node.id =
          some node.parentKeyEpoch := by
      simp [rootedAtOf, rooting, get?_set]
    rw [rootedAtWriteVersion, isRooted, rootedNow, written]
    simp [Except.map]
  have notPending : (ledger.rooting groupId workspaceId node
      rootKey).pendingNodeKeys.get? (slot workspaceId node.id) = none :=
    unrooted.notPending
  have notOwed : groupId ∉ (ledger.rooting groupId workspaceId node
      rootKey).guardOwed := unrooted.notOwed
  refine ⟨one.isArea, ?_⟩
  simp [wrapKeyFor, one.requireGuardKept, one.isArea, isNode, areaWrapKey,
    notPending, held, rooted, refuseIf, notOwed]

end Ledger

/-- The toy area's root. -/
def rootId : String := "00000000-0000-4000-8000-0000000000aa"

/-- The toy root's key: the one committed to, where the format lists one. -/
def areaRootKey : RosterFormat → Key
  | .one => List.replicate 32 7
  | .two => List.replicate 32 201

def toyNonce : Bytes := List.replicate ENVELOPE_NONCE_BYTES 0

/-- What the toy root's key is sealed with. -/
def rootAad : Bytes :=
  Utf8.encode (Json.compact (.list
    [.text "hushos/drive/node-key", .number DRIVE_ENVELOPE_SUITE,
      .text derivedArea, .text rootId, .text derivedArea, .number 1,
      .number 1]))

/-- The toy root's key, sealed under the area's. -/
def rootSealed (format : RosterFormat) : Bytes :=
  toyNonce ++ (areaRootKey format ++ toyTag areaKey toyNonce rootAad)

/-- The toy area's root as a listing serves it. -/
def rootNode (format : RosterFormat) : ServedNodeKey where
  id := rootId
  parentId := derivedArea
  parentKeyEpoch := 1
  keyEpoch := 1
  keyEnvelope := Base64url.encode (rootSealed format)

/-- The operations that open the toy area and its root. -/
def rootOps
    {format : RosterFormat}
    (chain : Accepted (areaVault format).toPrimitives) :
    List (Op (areaVault format)) :=
  areaOps chain ++ [.openListedNode derivedArea (rootNode format)]

theorem length_areaRootKey (format : RosterFormat) :
    (areaRootKey format).length = KEY_BYTES := by
  cases format with
  | one =>
    rfl
  | two =>
    rfl

/-- The sample root opens to the sample root key. -/
theorem rootNode_opensTo (format : RosterFormat) :
    (areaVault format).OpensTo (rootNode format).keyEnvelope areaKey
      ((rootNode format).context derivedArea) (areaRootKey format) := by
  have isKey := length_areaRootKey format
  have nonce : toyNonce.length = ENVELOPE_NONCE_BYTES :=
    length_replicate
  have tag : (toyTag areaKey toyNonce rootAad).length = CHUNK_TAG_BYTES :=
    length_replicate
  have length : (rootSealed format).length = KEY_ENVELOPE_BYTES := by
    rw [rootSealed, length_append, length_append, nonce, isKey, tag]
    rfl
  refine ⟨rootSealed format, ?_, ?_⟩
  · rw [← length]
    refine Primitives.decode_encode ?_
    intro empty
    rw [empty] at length
    exact absurd length (by decide)
  · have sealed_ : nodeKeyContext ((rootNode format).context derivedArea) =
        .ok rootAad := by
      have isArea : isUuid derivedArea = true := by decide
      have isRoot : isUuid rootId = true := by decide
      have small : maxSafe ≠ 0 := by decide
      simp [nodeKeyContext, labelledContext, contextId, contextEpoch,
        ServedNodeKey.context, rootNode, isArea, isRoot, small, refuseIf,
        rootAad]
    have taken : (rootSealed format).take ENVELOPE_NONCE_BYTES =
        toyNonce := by
      rw [rootSealed, ← nonce, take_left]
    have dropped : (rootSealed format).drop ENVELOPE_NONCE_BYTES =
        areaRootKey format ++ toyTag areaKey toyNonce rootAad := by
      rw [rootSealed, ← nonce, drop_left]
    have decrypted : (areaVault format).decrypt
        (areaRootKey format ++ toyTag areaKey toyNonce rootAad) areaKey
        toyNonce rootAad = some (areaRootKey format) := by
      have all : (areaRootKey format ++
          toyTag areaKey toyNonce rootAad).length - CHUNK_TAG_BYTES =
            (areaRootKey format).length := by
        rw [length_append, tag, Nat.add_sub_cancel]
      show (if (areaRootKey format ++ toyTag areaKey toyNonce rootAad).drop
          _ = _ then some _ else none) = _
      rw [all, drop_left, if_pos rfl, take_left]
    simp only [Vault.openNodeKey, Vault.openKey, length, sealed_, taken,
      dropped, decrypted, isKey, refuseIf, ne_eq, not_true_eq_false,
      ↓reduceIte, ok_bind]

/-- The sample root key is the one the chain commits to. -/
theorem OfArea.checkAreaRoot
    {chain : Accepted (areaVault format).toPrimitives}
    (ofArea : OfArea format chain) :
    ∃ committed, Worker.checkAreaRoot chain derivedArea 1
      (areaRootKey format) = .ok committed := by
  have isArea : isUuid derivedArea = true := by decide
  have isListed : listedArea chain derivedArea 1 =
      some (bytesText 32 101) := by
    simp [listedArea, areaCommitments, isArea, ofArea.areaKeys]
  have isVersion : integer (.number 1) "workspace key version" =
      (.ok 1 : Except CryptoError Nat) := rfl
  cases format with
  | one =>
    refine ⟨false, ?_⟩
    simp [Worker.checkAreaRoot, isVersion, ofArea.notRetired, isListed,
      ofArea.areaRoots, areaRootOf, refuseIf]
  | two =>
    refine ⟨true, ?_⟩
    have commitment : (areaVault .two).areaRootCommitment
        (areaRootKey .two) = .ok (bytesText 32 201) := rfl
    simp [Worker.checkAreaRoot, isVersion, ofArea.notRetired, isListed,
      ofArea.areaRoots, areaRootOf, commitment, refuseIf]

theorem get?_rootSeenAt_commitAreas
    {chain : Accepted V.toPrimitives}
    (areas : List String)
    {ledger : Ledger V}
    {place : String}
    (unseen : ledger.rootSeenAt.get? place = none) :
    (areas.foldl (Ledger.commitArea chain) ledger).rootSeenAt.get? place =
      none := by
  induction areas generalizing ledger with
  | nil =>
    exact unseen
  | cons workspaceId rest inductionHypothesis =>
    refine inductionHypothesis ?_
    unfold Ledger.commitArea
    dsimp only
    split
    · rw [get?_erase, unseen, ite_self]
    · exact unseen

variable {chain : Accepted (areaVault format).toPrimitives}

/-- The sample area is open with its root still unopened. -/
theorem OfArea.unrooted
    (ofArea : OfArea format chain) :
    ((createAreaLedger (areaVault format)).run (areaOps chain)).Unrooted
        sampleGroup derivedArea (rootNode format) chain ∧
      ((createAreaLedger (areaVault format)).run
        (areaOps chain)).workspaceKey derivedArea 1 = some areaKey := by
  obtain ⟨after, committed, holds, isRun, opened⟩ := ofArea.opens
  rw [isRun]
  have rest := Ledger.commit_rest committed
  have workspaceKeys :
      (after.opening sampleGroup derivedArea 1 areaKey 1 1).workspaceKeys =
        OrderedMap.empty.set derivedArea
          { current := 1, keys := OrderedMap.empty.set 1 areaKey } := by
    rw [rest]
    rfl
  have openedBy :
      (after.opening sampleGroup derivedArea 1 areaKey 1 1).openedBy
        derivedArea = [sampleGroup] := by
    refine Ledger.openedBy_eq_singleton
      (Ledger.opens_opening.mpr (.inl ⟨rfl, rfl⟩)) ?_
    intro other opens
    rcases Ledger.opens_opening.mp opens with ⟨rfl, _⟩ | ⟨areas, isAreas, _⟩
    · rfl
    · simp [opened] at isAreas
  have areaWrite : after.areaWrite.get? (areaSlot sampleGroup derivedArea) =
      some 1 := by
    rw [Ledger.commit_parts committed,
      Ledger.get?_areaWrite_commitAreas _ _
        (slashless_of_isUuid (by decide)) (slashless_of_isUuid (by decide)),
      if_pos ⟨ofArea.groupId.symm,
        OrderedMap.mem_keys.mpr ⟨_, ofArea.areaKeys⟩⟩]
    exact ofArea.writeVersion
  have unseen : after.rootSeenAt.get? (areaSlot sampleGroup derivedArea) =
      none := by
    rw [Ledger.commit_parts committed]
    exact get?_rootSeenAt_commitAreas _ rfl
  refine ⟨{
    one := ⟨openedBy, holds.notPersonal⟩
    isChain := holds.isChain
    keyed := by
      rw [workspaceKeys, has_iff]
      exact mem_keys_set.mpr (.inl rfl)
    isWritten := areaWrite
    notHeld := by
      rw [rest]
      rfl
    notPending := by
      rw [rest]
      rfl
    unnamed := by
      rw [rest]
      rfl
    unseen := unseen
    notBlocked := by
      rw [rest]
      rfl
    notOwed := by
      rw [rest]
      exact Finset.notMem_empty _ }, ?_⟩
  rw [Ledger.workspaceKey, workspaceKeys, get?_set, if_pos rfl,
    Option.bind_some, get?_set, if_pos rfl]

/-- The sample run hands out the root key. -/
theorem OfArea.hands
    (ofArea : OfArea format chain) :
    ((createAreaLedger (areaVault format)).run (rootOps chain)).isArea
        derivedArea = true ∧
      ((createAreaLedger (areaVault format)).run (rootOps chain)).wrapKeyFor
        derivedArea rootId 1 = .ok (areaRootKey format) := by
  obtain ⟨unrooted, isKey⟩ := ofArea.unrooted
  obtain ⟨committed, checked⟩ := ofArea.checkAreaRoot
  have opened := Ledger.openListedNode_root unrooted rfl rfl isKey
    (rootNode_opensTo format) checked
  have isRun : (createAreaLedger (areaVault format)).run (rootOps chain) =
      ((createAreaLedger (areaVault format)).run (areaOps chain)).rooting
        sampleGroup derivedArea (rootNode format) (areaRootKey format) := by
    rw [rootOps, Ledger.run_append]
    exact congrArg Prod.snd opened
  rw [isRun]
  exact Ledger.hands_rooting unrooted
    (by decide : rootId ≠ derivedArea) (areaRootKey format)

theorem OfArea.rootOps_walk
    (ofArea : OfArea format chain) :
    (∀ op ∈ rootOps chain, op.walks = true) ∧
      Set.InjOn (areaVault format).sha256
        (statementsGiven (rootOps chain)) := by
  constructor
  · intro op member
    simp only [rootOps, areaOps, cons_append, nil_append,
      mem_cons, not_mem_nil, or_false] at member
    rcases member with rfl | rfl | rfl
    · rfl
    · rfl
    · rfl
  · refine Set.Subsingleton.injOn ?_ _
    refine Set.Subsingleton.anti
      (Set.subsingleton_singleton (a := (areaRoster format).bytes)) ?_
    rintro statement ⟨given, member, isStatement⟩
    simp only [rootOps, areaOps, cons_append, nil_append,
      mem_cons, Op.commit.injEq, reduceCtorEq, not_mem_nil,
      or_false] at member
    subst member
    exact ofArea.statements isStatement

/--
A key handed out to write into an area was reached from the area key at the
version its family's chain lists as latest, through a root opened at that
version: one the chain committed to, unless it committed to no root there.
-/
theorem Ledger.handed
    {workspaceId nodeId : String}
    {ops : List (Op V)}
    (walks : ∀ op ∈ ops, op.walks = true)
    (apart : Set.InjOn V.sha256 (statementsGiven ops))
    {key : Key}
    {epoch : Nat}
    (isArea : ((createAreaLedger V).run ops).isArea workspaceId = true)
    (hands : ((createAreaLedger V).run ops).Hands workspaceId nodeId key
      epoch) :
    ∃ groupId chain version,
      ((createAreaLedger V).run ops).familyOf workspaceId = some groupId ∧
        ((createAreaLedger V).run ops).chains.get? groupId = some chain ∧
        areaWriteVersion chain workspaceId = some version ∧
        Reached chain workspaceId version ops nodeId key epoch ∧
        ∃ before node areaKey rootKey,
          before ++ [.openListedNode workspaceId node] <+: ops ∧
            RootOpened chain workspaceId version before node areaKey
              rootKey := by
  have stated : statementsGiven ops ⊆ statementsGiven ops := subset_rfl
  have walked := Walked.run apart walks stated
  have ratchet := Ratchet.run apart stated
  have holds : OpensHold ops ((createAreaLedger V).run ops) := by
    have run := OpensHold.start.run ops
    rwa [nil_append] at run
  have reach {groupId : String} {chain : Accepted V.toPrimitives}
      {version : Nat}
      (isChain : ((createAreaLedger V).run ops).chains.get? groupId =
        some chain)
      (rooted : ((createAreaLedger V).run ops).Rooted ops groupId workspaceId
        nodeId key epoch (some version)) :
      Reached chain workspaceId version ops nodeId key epoch := by
    obtain ⟨floor, isFloor, reached⟩ := rooted version rfl
    obtain ⟨listing, isListing, _, carries⟩ :=
      Walked.exists_floor ratchet apart isChain
    obtain rfl := Option.some.inj (isFloor.symm.trans isListing)
    exact reached.carry carries
  have found : ∃ groupId chain version,
      ((createAreaLedger V).run ops).openedBy workspaceId = [groupId] ∧
        ((createAreaLedger V).run ops).chains.get? groupId = some chain ∧
        areaWriteVersion chain workspaceId = some version ∧
        Reached chain workspaceId version ops nodeId key epoch := by
    rcases Ledger.rootedNow_of_hands isArea hands with
      ⟨pending, isPending, rfl, rfl, rooted⟩ | ⟨held, isHeld, rfl, rfl, rooted⟩
    · obtain ⟨groupId, chain, version, isOpened, isChain, isLatest, isRooted⟩ :=
        Ledger.exists_chain_of_rootedNow ratchet holds isArea rooted
      refine ⟨groupId, chain, version, isOpened, isChain, isLatest,
        reach isChain ?_⟩
      rw [← isRooted]
      exact walked.pending isOpened isPending
    · obtain ⟨groupId, chain, version, isOpened, isChain, isLatest, isRooted⟩ :=
        Ledger.exists_chain_of_rootedNow ratchet holds isArea rooted
      refine ⟨groupId, chain, version, isOpened, isChain, isLatest,
        reach isChain ?_⟩
      rw [← isRooted]
      exact walked.own isOpened (walked.nodeKey isHeld)
  obtain ⟨groupId, chain, version, isOpened, isChain, isLatest, reached⟩ :=
    found
  exact ⟨groupId, chain, version, by rw [Ledger.familyOf, isOpened], isChain,
    isLatest, reached, reached.exists_root⟩

/-- The toy area's root, handed out, is the one its chain committed to. -/
theorem Ledger.handed_toy :
    ∃ chain : Accepted (areaVault .two).toPrimitives,
      ∃ groupId latest version,
        ((createAreaLedger (areaVault .two)).run
            (rootOps chain)).familyOf derivedArea = some groupId ∧
          ((createAreaLedger (areaVault .two)).run
            (rootOps chain)).chains.get? groupId = some latest ∧
          areaWriteVersion latest derivedArea = some version ∧
          Reached latest derivedArea version (rootOps chain) rootId
            (areaRootKey .two) 1 ∧
          ∃ before node key rootKey,
            before ++ [.openListedNode derivedArea node] <+: rootOps chain ∧
              RootOpened latest derivedArea version before node key
                rootKey := by
  obtain ⟨chain, ofArea⟩ := exists_areaChain .two
  obtain ⟨walks, apart⟩ := ofArea.rootOps_walk
  obtain ⟨isArea, wrapped⟩ := ofArea.hands
  exact ⟨chain, Ledger.handed walks apart isArea (.inl wrapped)⟩

/--
A family of format 1 commits to no area's root: any that opens under the area
key is handed out.
-/
theorem Ledger.hands_uncommitted :
    ∃ chain : Accepted (areaVault .one).toPrimitives,
      (∀ op ∈ rootOps chain, op.walks = true) ∧
        Set.InjOn (areaVault .one).sha256 (statementsGiven (rootOps chain)) ∧
        ((createAreaLedger (areaVault .one)).run (rootOps chain)).chains.get?
          sampleGroup = some chain ∧
        areaWriteVersion chain derivedArea = some 1 ∧
        ((createAreaLedger (areaVault .one)).run (rootOps chain)).isArea
          derivedArea = true ∧
        ((createAreaLedger (areaVault .one)).run
          (rootOps chain)).wrapKeyFor derivedArea rootId 1 =
            .ok (areaRootKey .one) ∧
        ∀ rootKey, ¬ CommitsRoot chain derivedArea 1 rootKey := by
  obtain ⟨chain, ofArea⟩ := exists_areaChain .one
  obtain ⟨walks, apart⟩ := ofArea.rootOps_walk
  obtain ⟨isArea, wrapped⟩ := ofArea.hands
  refine ⟨chain, walks, apart, ?_, ofArea.writeVersion, isArea, wrapped, ?_⟩
  · rw [rootOps, Ledger.run_append]
    show ((Ledger.openListedNode _ derivedArea
      (rootNode .one)).2).chains.get? sampleGroup = some chain
    rw [(Ledger.sameFamilies_openListedNode _ _ _).chains]
    exact ofArea.unrooted.1.isChain
  · rintro rootKey ⟨commitment, _, listed⟩
    rw [ofArea.areaRoots] at listed
    cases Option.some.inj listed

end Worker

end HushOS
