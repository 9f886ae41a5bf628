import HushOS.Worker.Runs

namespace HushOS

open Toolkit

namespace Worker

/-!
# What operations leave alone

Holding, opening and dropping keys leaves every family as it was
(`SameFamilies`, `Ledger.sameFamilies_step`).
-/

variable {V : Vault}

/-- Two ledgers with the same families: chains, areas opened, marks. -/
structure SameFamilies (before after : Ledger V) : Prop where
  chains : after.chains = before.chains
  floors : after.floors = before.floors
  opened : after.opened = before.opened
  areaWrite : after.areaWrite = before.areaWrite
  blocked : after.blocked = before.blocked
  guardOwed : after.guardOwed = before.guardOwed
  personal : after.personal = before.personal

namespace SameFamilies

theorem refl (ledger : Ledger V) : SameFamilies ledger ledger :=
  ⟨rfl, rfl, rfl, rfl, rfl, rfl, rfl⟩

theorem trans
    {first second third : Ledger V}
    (before : SameFamilies first second)
    (after : SameFamilies second third) :
    SameFamilies first third where
  chains := after.chains.trans before.chains
  floors := after.floors.trans before.floors
  opened := after.opened.trans before.opened
  areaWrite := after.areaWrite.trans before.areaWrite
  blocked := after.blocked.trans before.blocked
  guardOwed := after.guardOwed.trans before.guardOwed
  personal := after.personal.trans before.personal

theorem foldl
    {change : Ledger V → α → Ledger V}
    (one : ∀ ledger item, SameFamilies ledger (change ledger item))
    (items : List α)
    (ledger : Ledger V) :
    SameFamilies ledger (items.foldl change ledger) := by
  induction items generalizing ledger with
  | nil =>
    exact refl ledger
  | cons item rest inductionHypothesis =>
    exact (one ledger item).trans (inductionHypothesis (change ledger item))

end SameFamilies

namespace Ledger

theorem sameFamilies_dropWorkspace (ledger : Ledger V) (workspaceId : String) :
    SameFamilies ledger (ledger.dropWorkspace workspaceId) :=
  ⟨rfl, rfl, rfl, rfl, rfl, rfl, rfl⟩

theorem sameFamilies_holdWorkspaceKey
    (ledger : Ledger V)
    (workspaceId : String)
    (version : Nat)
    (key : Key) :
    SameFamilies ledger (ledger.holdWorkspaceKey workspaceId version key) :=
  ⟨rfl, rfl, rfl, rfl, rfl, rfl, rfl⟩

theorem sameFamilies_withNodeKeys
    (ledger : Ledger V)
    (workspaceId : String)
    (change : OrderedMap String HeldKey → OrderedMap String HeldKey) :
    SameFamilies ledger (ledger.withNodeKeys workspaceId change) := by
  unfold withNodeKeys
  split
  · exact ⟨rfl, rfl, rfl, rfl, rfl, rfl, rfl⟩
  · exact ⟨rfl, rfl, rfl, rfl, rfl, rfl, rfl⟩

theorem sameFamilies_withPrevNodeKeys
    (ledger : Ledger V)
    (workspaceId : String)
    (change : OrderedMap String HeldKey → OrderedMap String HeldKey) :
    SameFamilies ledger (ledger.withPrevNodeKeys workspaceId change) := by
  unfold withPrevNodeKeys
  split
  · exact ⟨rfl, rfl, rfl, rfl, rfl, rfl, rfl⟩
  · exact ⟨rfl, rfl, rfl, rfl, rfl, rfl, rfl⟩

theorem sameFamilies_rememberNodeKey
    (ledger : Ledger V)
    (workspaceId nodeId : String)
    (key : Key)
    (epoch : Nat)
    (rootedAt : Option Nat) :
    SameFamilies ledger
      (ledger.rememberNodeKey workspaceId nodeId key epoch rootedAt) := by
  have held := ledger.sameFamilies_withNodeKeys workspaceId fun pool =>
    pool.set (slot workspaceId nodeId) { key, epoch }
  exact held.trans ⟨rfl, rfl, rfl, rfl, rfl, rfl, rfl⟩

theorem sameFamilies_rememberPrevNodeKey
    (ledger : Ledger V)
    (workspaceId nodeId : String)
    (key : Key)
    (epoch : Nat)
    (own : Bool) :
    SameFamilies ledger
      (ledger.rememberPrevNodeKey workspaceId nodeId key epoch own) :=
  ledger.sameFamilies_withPrevNodeKeys workspaceId _

theorem sameFamilies_forgetNodeKey
    (ledger : Ledger V)
    (workspaceId nodeId : String) :
    SameFamilies ledger (ledger.forgetNodeKey workspaceId nodeId) :=
  ledger.sameFamilies_withNodeKeys workspaceId _

theorem sameFamilies_rootSeen
    (ledger : Ledger V)
    (workspaceId nodeId : String)
    (epoch : Nat)
    (key : Key) :
    SameFamilies ledger (ledger.rootSeen workspaceId nodeId epoch key).2 := by
  unfold rootSeen
  split
  · split
    · exact .refl ledger
    · split
      · exact .refl ledger
      · dsimp only
        split
        · split
          · exact ⟨rfl, rfl, rfl, rfl, rfl, rfl, rfl⟩
          · exact .refl ledger
        · exact ⟨rfl, rfl, rfl, rfl, rfl, rfl, rfl⟩
  · exact .refl ledger

variable {ledger after : Ledger V} {workspaceId : String}

theorem sameFamilies_openEnvelope
    {node : ServedNodeKey}
    {key : Key}
    (opened : ledger.openEnvelope workspaceId node = .ok (key, after)) :
    SameFamilies ledger after := by
  simp only [openEnvelope, bind_eq_ok] at opened
  obtain ⟨⟨parentKey, rootedAt⟩, _, envelope, _, found, _, _, _, opened⟩ :=
    opened
  have held := ledger.sameFamilies_rememberNodeKey workspaceId node.id found
    node.keyEpoch rootedAt
  split at opened
  · cases opened
    exact held.trans ⟨rfl, rfl, rfl, rfl, rfl, rfl, rfl⟩
  · cases opened
    exact held

theorem sameFamilies_takeListed
    {node : ServedNodeKey}
    {key : Key}
    (taken : ledger.takeListed workspaceId node = .ok (key, after)) :
    SameFamilies ledger after := by
  unfold takeListed at taken
  split at taken
  · cases taken
    exact .refl ledger
  · exact sameFamilies_openEnvelope taken

theorem sameFamilies_keepPrevious
    (ledger : Ledger V)
    (workspaceId : String)
    (node : ServedNodeKey)
    (areaRoot : Bool)
    (heldPrevious : Option Key) :
    SameFamilies ledger
      (ledger.keepPrevious workspaceId node areaRoot heldPrevious) := by
  unfold keepPrevious
  split
  · split
    · exact .refl ledger
    · dsimp only
      split
      · exact ledger.sameFamilies_rememberPrevNodeKey _ _ _ _ _
      · exact ledger.sameFamilies_rememberPrevNodeKey _ _ _ _ _
      · exact .refl ledger
  · exact .refl ledger

theorem sameFamilies_dropRoot
    (ledger : Ledger V)
    (workspaceId nodeId : String) :
    SameFamilies ledger (ledger.dropRoot workspaceId nodeId) :=
  (ledger.sameFamilies_forgetNodeKey workspaceId nodeId).trans
    ⟨rfl, rfl, rfl, rfl, rfl, rfl, rfl⟩

/-- Opening a listed node leaves the families. -/
theorem sameFamilies_openListedNode
    (ledger : Ledger V)
    (workspaceId : String)
    (node : ServedNodeKey) :
    SameFamilies ledger (ledger.openListedNode workspaceId node).2 := by
  unfold openListedNode
  dsimp only
  split
  · exact .refl ledger
  · split
    · exact .refl ledger
    · split
      · exact .refl ledger
      · next key taken isTaken =>
          have first := sameFamilies_takeListed isTaken
          have second : SameFamilies ledger
              (if ledger.isAreaRoot workspaceId node then
                taken.rootSeen workspaceId node.id node.parentKeyEpoch key
              else
                (true, taken)).2 := by
            split
            · exact first.trans (taken.sameFamilies_rootSeen _ _ _ _)
            · exact first
          generalize (if ledger.isAreaRoot workspaceId node then
            taken.rootSeen workspaceId node.id node.parentKeyEpoch key
            else (true, taken)) = result at second ⊢
          obtain ⟨mayHold, seen⟩ := result
          cases mayHold with
          | false =>
            exact second.trans (sameFamilies_dropRoot _ _ _)
          | true =>
            have after := second.trans
              (sameFamilies_keepPrevious seen workspaceId node
                (ledger.isAreaRoot workspaceId node)
                (ledger.heldPrevious workspaceId node))
            simp only [↓reduceIte]
            split
            · exact after
            · exact after

theorem sameFamilies_newNodeKey
    {node : NewNodeKey}
    {key nonce : Bytes}
    {made : Key × Bytes}
    (isMade : ledger.newNodeKey workspaceId node key nonce =
      .ok (made, after)) :
    SameFamilies ledger after := by
  simp only [newNodeKey, bind_eq_ok, Except.ok.injEq] at isMade
  obtain ⟨_, _, _, _, rootedAt, _, isMade⟩ := isMade
  cases isMade
  exact ledger.sameFamilies_rememberNodeKey _ _ _ _ _

theorem sameFamilies_rewrapAtTarget
    {node : RotatingNodeKey}
    {old nonce envelope : Bytes}
    (rewrapped : ledger.rewrapAtTarget workspaceId node old nonce =
      .ok (envelope, after)) :
    SameFamilies ledger after := by
  simp only [rewrapAtTarget, bind_eq_ok] at rewrapped
  obtain ⟨_, _, _, _, _, _, _, _, _, _, rewrapped⟩ := rewrapped
  split at rewrapped
  · cases rewrapped
    exact .refl ledger
  · cases rewrapped
    exact ledger.sameFamilies_rememberNodeKey _ _ _ _ _

theorem sameFamilies_rotateKey
    {node : RotatingNodeKey}
    {targetEpoch : Nat}
    {fresh nonce : Bytes}
    {rekey : RekeyKeys → Except CryptoError τ}
    {rotated : Rotated τ}
    (isRotated : ledger.rotateKey workspaceId node targetEpoch fresh nonce
      rekey = .ok (rotated, after)) :
    SameFamilies ledger after := by
  simp only [rotateKey, bind_eq_ok] at isRotated
  obtain ⟨_, _, old, _, isRotated⟩ := isRotated
  split at isRotated
  · simp only [bind_eq_ok, Except.ok.injEq] at isRotated
    obtain ⟨⟨envelope, rewrapped⟩, isRewrapped, isRotated⟩ := isRotated
    cases isRotated
    exact sameFamilies_rewrapAtTarget isRewrapped
  · simp only [bind_eq_ok, Except.ok.injEq] at isRotated
    obtain ⟨_, _, _, _, _, _, isRotated⟩ := isRotated
    cases isRotated
    exact ⟨rfl, rfl, rfl, rfl, rfl, rfl, rfl⟩

theorem sameFamilies_commitPending
    (ledger : Ledger V)
    (workspaceId : String)
    (nodeIds : List String) :
    SameFamilies ledger (ledger.commitPending workspaceId nodeIds) := by
  refine SameFamilies.foldl ?_ nodeIds ledger
  intro ledger nodeId
  unfold commitOne
  dsimp only
  split
  · exact .refl ledger
  · next pending _ =>
      refine SameFamilies.trans ?_ (sameFamilies_rememberNodeKey _ _ _ _ _ _)
      refine SameFamilies.trans ?_
        (sameFamilies_rememberPrevNodeKey _ _ _ _ _ _)
      exact ⟨rfl, rfl, rfl, rfl, rfl, rfl, rfl⟩

/-- Committing areas writes their write versions and roots seen alone. -/
theorem commitAreas_eq
    (chain : Accepted V.toPrimitives)
    (areas : List String)
    (ledger : Ledger V) :
    areas.foldl (commitArea chain) ledger =
      { ledger with
        areaWrite := (areas.foldl (commitArea chain) ledger).areaWrite
        rootSeenAt := (areas.foldl (commitArea chain) ledger).rootSeenAt } := by
  induction areas generalizing ledger with
  | nil =>
    rfl
  | cons workspaceId rest inductionHypothesis =>
    have one : commitArea chain ledger workspaceId =
        { ledger with
          areaWrite := (commitArea chain ledger workspaceId).areaWrite
          rootSeenAt :=
            (commitArea chain ledger workspaceId).rootSeenAt } := by
      unfold commitArea
      dsimp only
      split
      · rfl
      · rfl
    rw [List.foldl_cons]
    refine (inductionHypothesis _).trans ?_
    rw [one]

theorem commit_parts
    {chain : Accepted V.toPrimitives}
    (committed : ledger.commit chain = .ok after) :
    after =
      chain.val.areaKeys.keys.foldl (commitArea chain)
        { ledger with
          chains := ledger.chains.set chain.val.groupId chain
          floors :=
            if movesFloor (ledger.floors.get? chain.val.groupId) chain then
              ledger.floors.set chain.val.groupId chain
            else
              ledger.floors } := by
  simp only [commit, bind_eq_ok, exists_unit, Except.ok.injEq] at committed
  obtain ⟨_, rfl⟩ := committed
  rfl

theorem commit_rest
    {chain : Accepted V.toPrimitives}
    (committed : ledger.commit chain = .ok after) :
    after =
      { ledger with
        chains := ledger.chains.set chain.val.groupId chain
        floors :=
          if movesFloor (ledger.floors.get? chain.val.groupId) chain then
            ledger.floors.set chain.val.groupId chain
          else
            ledger.floors
        areaWrite := after.areaWrite
        rootSeenAt := after.rootSeenAt } := by
  rw [commit_parts committed]
  exact commitAreas_eq _ _ _

end Ledger

/-- Whether an operation is on keys alone: it names no family. -/
def Op.onKeys : Op V → Bool
  | .commit _ | .uncommit _ | .owe _ | .kept _ | .forgetGroup _
  | .forgetAllGroups | .openArea _ _ _ _ _ _
  | .openPersonalWorkspace _ _ _ | .clear => false
  | _ => true

theorem sameFamilies_orUnchanged
    {ledger : Ledger V}
    {result : Except CryptoError (α × Ledger V)}
    (accepted : ∀ value after, result = .ok (value, after) →
      SameFamilies ledger after) :
    SameFamilies ledger (orUnchanged ledger result) := by
  cases result with
  | error reason =>
    exact .refl ledger
  | ok found =>
    exact accepted found.1 found.2 rfl

/-- An operation on keys leaves the families. -/
theorem Ledger.sameFamilies_step
    (ledger : Ledger V)
    {op : Op V}
    (onKeys : op.onKeys = true) :
    SameFamilies ledger (ledger.step op) := by
  cases op with
  | commit _ | uncommit _ | owe _ | kept _ | forgetGroup _
  | forgetAllGroups | openArea _ _ _ _ _ _
  | openPersonalWorkspace _ _ _ | clear =>
    simp [Op.onKeys] at onKeys
  | holdWorkspaceKey workspaceId version key =>
    exact ledger.sameFamilies_holdWorkspaceKey workspaceId version key
  | dropWorkspace workspaceId =>
    exact ledger.sameFamilies_dropWorkspace workspaceId
  | rootSeen workspaceId nodeId epoch key =>
    exact ledger.sameFamilies_rootSeen workspaceId nodeId epoch key
  | forgetNodeKey workspaceId nodeId =>
    exact ledger.sameFamilies_forgetNodeKey workspaceId nodeId
  | rememberNodeKey workspaceId nodeId key epoch rootedAt =>
    exact ledger.sameFamilies_rememberNodeKey _ _ _ _ _
  | rememberPrevNodeKey workspaceId nodeId key epoch own =>
    exact ledger.sameFamilies_rememberPrevNodeKey _ _ _ _ _
  | openListedNode workspaceId node =>
    exact ledger.sameFamilies_openListedNode workspaceId node
  | newNodeKey workspaceId node key nonce =>
    exact sameFamilies_orUnchanged fun _ _ made =>
      sameFamilies_newNodeKey made
  | rotateKey workspaceId node targetEpoch fresh nonce rekey =>
    exact sameFamilies_orUnchanged fun _ _ rotated =>
      sameFamilies_rotateKey rotated
  | rewrapNode _ _ _ =>
    exact .refl ledger
  | commitPending workspaceId nodeIds =>
    exact ledger.sameFamilies_commitPending workspaceId nodeIds
  | dropPending _ _ | dropAllPending _ =>
    exact ⟨rfl, rfl, rfl, rfl, rfl, rfl, rfl⟩

end Worker

end HushOS
