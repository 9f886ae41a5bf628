import HushOS.Worker.Ledger

namespace HushOS

open Toolkit

namespace Worker

/-!
# Node keys

What a node key may be wrapped under and what a key that was opened is rooted
at: in an area, the area key version its path begins at, or nothing for a key
reached through a previous one, which reads and never writes.
-/

def AREA_ROOT : CryptoError :=
  ⟨"A family folder’s top level changes only with the family’s member list."⟩

def NOT_COMMITTED_ROOT : CryptoError :=
  ⟨"This folder’s key is not the one the family’s member list names."⟩

def ITEM_CHANGED : CryptoError :=
  ⟨"This item changed since it was opened. Refresh and retry."⟩

def NOT_CARRIED : CryptoError :=
  ⟨"This item was added under a key the key change replaces, so it is not carried over."⟩

def OPEN_DRIVE : CryptoError :=
  ⟨"Open Drive again to continue."⟩

def OLDER_WORKSPACE_KEY : CryptoError :=
  ⟨"This folder was wrapped under an older workspace key."⟩

def OPEN_FOLDER : CryptoError :=
  ⟨"Open the containing folder first."⟩

def OLDER_FOLDER_KEY : CryptoError :=
  ⟨"This item was wrapped under an older folder key."⟩

/-- A node key envelope as a listing serves it. -/
structure ServedNodeKey where
  id : String
  parentId : String
  parentKeyEpoch : Nat
  keyEpoch : Nat
  keyEnvelope : String
  prevKeyEnvelope : Option String := none
  prevKeyEpoch : Option Nat := none
  prevParentKeyEpoch : Option Nat := none
  deriving DecidableEq, Repr

/-- A node as rotation work serves it, as far as its key goes. -/
structure RotatingNodeKey where
  id : String
  parentId : String
  parentKeyEpoch : Nat
  keyEpoch : Nat
  wrappedParentKeyEpoch : Nat
  keyEnvelope : String
  deriving DecidableEq, Repr

/-- A node to be made, or re-wrapped under another parent. -/
structure NewNodeKey where
  id : String
  parentId : String
  parentKeyEpoch : Nat
  keyEpoch : Nat
  deriving DecidableEq, Repr

/-- Where a new node's key is sealed. -/
def NewNodeKey.context (node : NewNodeKey) (workspaceId : String) :
    NodeKeyContext where
  workspaceId := workspaceId
  nodeId := node.id
  parentId := node.parentId
  parentKeyEpoch := node.parentKeyEpoch
  keyEpoch := node.keyEpoch

/-- Where a listed node's key is sealed. -/
def ServedNodeKey.context (node : ServedNodeKey) (workspaceId : String) :
    NodeKeyContext where
  workspaceId := workspaceId
  nodeId := node.id
  parentId := node.parentId
  parentKeyEpoch := node.parentKeyEpoch
  keyEpoch := node.keyEpoch

/-- Where a walked node's key was sealed. -/
def RotatingNodeKey.wrappedContext
    (node : RotatingNodeKey)
    (workspaceId : String) :
    NodeKeyContext where
  workspaceId := workspaceId
  nodeId := node.id
  parentId := node.parentId
  parentKeyEpoch := node.wrappedParentKeyEpoch
  keyEpoch := node.keyEpoch

/-- Where a walked node's key is to be sealed. -/
def RotatingNodeKey.context (node : RotatingNodeKey) (workspaceId : String) :
    NodeKeyContext where
  workspaceId := workspaceId
  nodeId := node.id
  parentId := node.parentId
  parentKeyEpoch := node.parentKeyEpoch
  keyEpoch := node.keyEpoch

/-- The keys a walk hands on, to re-key a node's records. -/
structure RekeyKeys where
  old : Key
  fresh : Key
  parentKey : Key

/-- What a walk of one node gives. -/
inductive Rotated (τ : Type) where
  | rewrap (keyEnvelope : Bytes) (key : Key)
  | rekeyed (result : τ)

namespace Ledger

variable {V : Vault}

/-- The node keys of a workspace: its own, or a guest's. -/
def nodeKeysOf (ledger : Ledger V) (workspaceId : String) :
    OrderedMap String HeldKey :=
  if ledger.workspaceKeys.has workspaceId then
    ledger.ownNodeKeys
  else
    ledger.guestNodeKeys

/-- The previous node keys of a workspace: its own, or a guest's. -/
def prevNodeKeysOf (ledger : Ledger V) (workspaceId : String) :
    OrderedMap String HeldKey :=
  if ledger.workspaceKeys.has workspaceId then
    ledger.ownPrevNodeKeys
  else
    ledger.guestPrevNodeKeys

/-- The ledger with a workspace's node keys changed. -/
def withNodeKeys
    (ledger : Ledger V)
    (workspaceId : String)
    (change : OrderedMap String HeldKey → OrderedMap String HeldKey) :
    Ledger V :=
  if ledger.workspaceKeys.has workspaceId then
    { ledger with ownNodeKeys := change ledger.ownNodeKeys }
  else
    { ledger with guestNodeKeys := change ledger.guestNodeKeys }

/-- The ledger with a workspace's previous node keys changed. -/
def withPrevNodeKeys
    (ledger : Ledger V)
    (workspaceId : String)
    (change : OrderedMap String HeldKey → OrderedMap String HeldKey) :
    Ledger V :=
  if ledger.workspaceKeys.has workspaceId then
    { ledger with ownPrevNodeKeys := change ledger.ownPrevNodeKeys }
  else
    { ledger with guestPrevNodeKeys := change ledger.guestPrevNodeKeys }

/-- The key held for a node. -/
def nodeKey (ledger : Ledger V) (workspaceId nodeId : String) :
    Option HeldKey :=
  if ledger.heldBack workspaceId then
    none
  else
    (ledger.nodeKeysOf workspaceId).get? (slot workspaceId nodeId)

/-- A node's key from a batch that failed, dropped. -/
def forgetNodeKey (ledger : Ledger V) (workspaceId nodeId : String) :
    Ledger V :=
  ledger.withNodeKeys workspaceId fun pool =>
    pool.erase (slot workspaceId nodeId)

/-- A node's key held, with what its path is rooted at. -/
def rememberNodeKey
    (ledger : Ledger V)
    (workspaceId nodeId : String)
    (key : Key)
    (epoch : Nat)
    (rootedAt : Option Nat) :
    Ledger V :=
  let place := slot workspaceId nodeId
  let held := ledger.withNodeKeys workspaceId fun pool =>
    pool.set place { key, epoch }
  { held with
    lineage := held.lineage.set place rootedAt
    -- Whatever opened it before, this key was not opened from a root row.
    rootOpenedUnder := held.rootOpenedUnder.erase place }

/-- A node's previous key held. -/
def rememberPrevNodeKey
    (ledger : Ledger V)
    (workspaceId nodeId : String)
    (key : Key)
    (epoch : Nat)
    (own : Bool) :
    Ledger V :=
  ledger.withPrevNodeKeys workspaceId fun pool =>
    pool.set (slot workspaceId nodeId) { key, epoch, own }

/-- What a node's key is rooted at. -/
def rootedAtOf (ledger : Ledger V) (workspaceId nodeId : String) :
    Option Nat :=
  (ledger.lineage.get? (slot workspaceId nodeId)).getD none

/-- The key a node is wrapped under, and what that key is rooted at. -/
def parentKeyAndRoot
    (ledger : Ledger V)
    (workspaceId parentId : String)
    (parentKeyEpoch : Nat) :
    Except CryptoError (Key × Option Nat) :=
  if parentId = workspaceId then
    match ledger.workspaceKeys.get? workspaceId with
    | none => .error OPEN_DRIVE
    | some workspace =>
      match workspace.keys.get? parentKeyEpoch with
      | none => .error OLDER_WORKSPACE_KEY
      | some key => .ok (key, some parentKeyEpoch)
  else
    let place := slot workspaceId parentId
    let pending := ledger.pendingNodeKeys.get? place
    match pending.filter fun pending => pending.epoch = parentKeyEpoch with
    | some pending => .ok (pending.fresh, pending.rootedAt)
    | none =>
      match pending.filter fun pending =>
          pending.oldEpoch = parentKeyEpoch with
      | some pending => .ok (pending.old, none)
      | none =>
        match ledger.nodeKey workspaceId parentId with
        | none => .error OPEN_FOLDER
        | some parent =>
          if parent.epoch = parentKeyEpoch then
            .ok (parent.key, ledger.rootedAtOf workspaceId parentId)
          else
            match ((ledger.prevNodeKeysOf workspaceId).get?
                place).filter fun previous =>
                  previous.epoch = parentKeyEpoch with
            | some previous => .ok (previous.key, none)
            | none => .error OLDER_FOLDER_KEY

/-- The key a node is wrapped under. -/
def parentKeyFor
    (ledger : Ledger V)
    (workspaceId parentId : String)
    (parentKeyEpoch : Nat) :
    Except CryptoError Key :=
  (ledger.parentKeyAndRoot workspaceId parentId parentKeyEpoch).map Prod.fst

/-- What a node made under a parent is rooted at. -/
def rootOf
    (ledger : Ledger V)
    (workspaceId parentId : String)
    (parentKeyEpoch : Nat) :
    Except CryptoError (Option Nat) :=
  (ledger.parentKeyAndRoot workspaceId parentId parentKeyEpoch).map Prod.snd

/-- Whether a key rooted somewhere is rooted at the write version now. -/
def rootedNow
    (ledger : Ledger V)
    (workspaceId : String)
    (rootedAt : Option Nat) :
    Except CryptoError Bool :=
  match rootedAt with
  | none => .ok false
  | some version =>
    (ledger.writeVersion workspaceId).map fun current =>
      current = some version

/-- Whether a node's key is rooted at the write version now. -/
def rootedAtWriteVersion (ledger : Ledger V) (workspaceId nodeId : String) :
    Except CryptoError Bool :=
  ledger.rootedNow workspaceId (ledger.rootedAtOf workspaceId nodeId)

/-- A node's key for a write that puts something under it, if held. -/
def writableNodeKey (ledger : Ledger V) (workspaceId nodeId : String) :
    Except CryptoError (Option HeldKey) := do
  refuseIf (ledger.heldBack workspaceId = true) NO_CHAIN
  ledger.requireGuardKept workspaceId
  match ledger.nodeKey workspaceId nodeId with
  | none => .ok none
  | some node =>
    if ledger.isArea workspaceId then do
      let rooted ← ledger.rootedAtWriteVersion workspaceId nodeId
      refuseIf (rooted = false) KEY_CHANGE_PENDING
      .ok (some node)
    else
      .ok (some node)

/-- The workspace key version new things are wrapped under, and its key. -/
def writeVersionOf (ledger : Ledger V) (workspaceId : String) :
    Except CryptoError (Nat × Key) := do
  ledger.requireGuardKept workspaceId
  match ledger.workspaceKeys.get? workspaceId with
  | none => .error OPEN_DRIVE
  | some workspace => do
      let written ← ledger.writeVersion workspaceId
      let version := written.getD workspace.current
      match workspace.keys.get? version with
      | none => .error KEYS_CHANGED
      | some key => .ok (version, key)

/-- The key a new or re-wrapped node of an area goes under. -/
def areaWrapKey
    (ledger : Ledger V)
    (workspaceId parentId : String)
    (parentKeyEpoch : Nat) :
    Except CryptoError Key :=
  let pending := ledger.pendingNodeKeys.get? (slot workspaceId parentId)
  match pending.filter fun pending => pending.epoch = parentKeyEpoch with
  | some pending => do
      let rooted ← ledger.rootedNow workspaceId pending.rootedAt
      refuseIf (rooted = false) KEY_CHANGE_PENDING
      .ok pending.fresh
  | none =>
    match ledger.nodeKey workspaceId parentId with
    | none => .error OPEN_FOLDER
    | some parent => do
        let rooted ← ledger.rootedAtWriteVersion workspaceId parentId
        refuseIf (rooted = false) KEY_CHANGE_PENDING
        refuseIf
          (¬ (parent.epoch = parentKeyEpoch ∧
            pending.map PendingKey.oldEpoch ≠ some parentKeyEpoch))
          KEYS_CHANGED
        .ok parent.key

/-- The key a new or re-wrapped node goes under. -/
def wrapKeyFor
    (ledger : Ledger V)
    (workspaceId parentId : String)
    (parentKeyEpoch : Nat) :
    Except CryptoError Key := do
  ledger.requireGuardKept workspaceId
  if parentId = workspaceId then
    if ledger.isArea workspaceId then
      .error AREA_ROOT
    else do
      let (version, key) ← ledger.writeVersionOf workspaceId
      refuseIf (version ≠ parentKeyEpoch) KEYS_CHANGED
      .ok key
  else if ledger.isArea workspaceId then
    ledger.areaWrapKey workspaceId parentId parentKeyEpoch
  else
    ledger.parentKeyFor workspaceId parentId parentKeyEpoch

/-- Whether a listed row is an area's top level. -/
def isAreaRoot
    (ledger : Ledger V)
    (workspaceId : String)
    (node : ServedNodeKey) :
    Bool :=
  node.parentId = workspaceId && ledger.isArea workspaceId

/-- The key held for a listed node, where the row may be taken for it. -/
def cachedFor
    (ledger : Ledger V)
    (workspaceId : String)
    (node : ServedNodeKey) :
    Option Key :=
  ((ledger.nodeKey workspaceId node.id).filter fun cached =>
    cached.epoch = node.keyEpoch &&
      (!ledger.isAreaRoot workspaceId node ||
        ledger.rootOpenedUnder.get? (slot workspaceId node.id) =
          some node.parentKeyEpoch)).map HeldKey.key

/-- An area root's held key that the row says was replaced, if not taken. -/
def heldPrevious
    (ledger : Ledger V)
    (workspaceId : String)
    (node : ServedNodeKey) :
    Option Key :=
  if ledger.isAreaRoot workspaceId node &&
      (ledger.cachedFor workspaceId node).isNone then
    ((ledger.nodeKey workspaceId node.id).filter fun cached =>
      some cached.epoch = node.prevKeyEpoch &&
        cached.epoch ≠ node.keyEpoch).map HeldKey.key
  else
    none

/-- A listed node's key opened from its envelope, and held. -/
def openEnvelope
    (ledger : Ledger V)
    (workspaceId : String)
    (node : ServedNodeKey) :
    Except CryptoError (Key × Ledger V) := do
  let (parentKey, rootedAt) ←
    ledger.parentKeyAndRoot workspaceId node.parentId node.parentKeyEpoch
  let envelope ← decode node.keyEnvelope KEY_ENVELOPE_BYTES
  let key ← V.openNodeKey envelope parentKey (node.context workspaceId)
  refuseIf (ledger.heldBack workspaceId = true) NO_CHAIN
  let held :=
    ledger.rememberNodeKey workspaceId node.id key node.keyEpoch rootedAt
  if ledger.isAreaRoot workspaceId node then
    .ok
      (key,
        { held with
          rootOpenedUnder := held.rootOpenedUnder.set
            (slot workspaceId node.id) node.parentKeyEpoch })
  else
    .ok (key, held)

/-- A listed node's key, held already or opened now. -/
def takeListed
    (ledger : Ledger V)
    (workspaceId : String)
    (node : ServedNodeKey) :
    Except CryptoError (Key × Ledger V) :=
  match ledger.cachedFor workspaceId node with
  | some key => .ok (key, ledger)
  | none => ledger.openEnvelope workspaceId node

/-- The previous key a listed row's second envelope holds, if it opens. -/
def servedPrevious
    (ledger : Ledger V)
    (workspaceId : String)
    (node : ServedNodeKey)
    (areaRoot : Bool)
    (prevKeyEnvelope : String)
    (prevKeyEpoch prevParentKeyEpoch : Nat) :
    Except CryptoError Key := do
  let parentKey ←
    ledger.parentKeyFor workspaceId node.parentId prevParentKeyEpoch
  let ctx : NodeKeyContext :=
    { workspaceId
      nodeId := node.id
      parentId := node.parentId
      parentKeyEpoch := prevParentKeyEpoch
      keyEpoch := prevKeyEpoch }
  let envelope ← decode prevKeyEnvelope KEY_ENVELOPE_BYTES
  if areaRoot then
    match V.openPreviousRootKey envelope parentKey ctx with
    | .ok key => .ok key
    | .error _ => V.openNodeKey envelope parentKey ctx
  else
    V.openNodeKey envelope parentKey ctx

/-- A listed node's previous key held, while a rotation runs. -/
def keepPrevious
    (ledger : Ledger V)
    (workspaceId : String)
    (node : ServedNodeKey)
    (areaRoot : Bool)
    (heldPrevious : Option Key) :
    Ledger V :=
  match node.prevKeyEnvelope, node.prevKeyEpoch, node.prevParentKeyEpoch with
  | some prevKeyEnvelope, some prevKeyEpoch, some prevParentKeyEpoch =>
    if prevKeyEnvelope = "" ∨ prevKeyEpoch = 0 ∨
        prevParentKeyEpoch = 0 then
      ledger
    else
      let previous := ledger.servedPrevious workspaceId node areaRoot
        prevKeyEnvelope prevKeyEpoch prevParentKeyEpoch
      -- What this device opened itself outranks what is served.
      let own := heldPrevious.or
        (if areaRoot then
          (((ledger.prevNodeKeysOf workspaceId).get?
            (slot workspaceId node.id)).filter fun kept =>
              kept.own && kept.epoch = prevKeyEpoch).map HeldKey.key
        else
          none)
      match own, previous with
      | some own, _ =>
        ledger.rememberPrevNodeKey workspaceId node.id own prevKeyEpoch
          true
      | none, .ok previous =>
        ledger.rememberPrevNodeKey workspaceId node.id previous
          prevKeyEpoch false
      | none, .error _ => ledger
  | _, _, _ => ledger

/-- An area root's key whose commitment is another, dropped. -/
def dropRoot (ledger : Ledger V) (workspaceId nodeId : String) : Ledger V :=
  let place := slot workspaceId nodeId
  let dropped := ledger.forgetNodeKey workspaceId nodeId
  { dropped with rootOpenedUnder := dropped.rootOpenedUnder.erase place }

/--
A listed node's key, opened or taken, and held with what its path is rooted
at.  What was held before a refusal stays held.
-/
def openListedNode
    (ledger : Ledger V)
    (workspaceId : String)
    (node : ServedNodeKey) :
    Except CryptoError Key × Ledger V :=
  let areaRoot := ledger.isAreaRoot workspaceId node
  if ledger.heldBack workspaceId then
    (.error NO_CHAIN, ledger)
  else if areaRoot && ledger.notTheRoot workspaceId node.id then
    (.error NOT_COMMITTED_ROOT, ledger)
  else
    let heldPrevious := ledger.heldPrevious workspaceId node
    match ledger.takeListed workspaceId node with
    | .error reason => (.error reason, ledger)
    | .ok (key, taken) =>
      let (mayHold, seen) :=
        if areaRoot then
          taken.rootSeen workspaceId node.id node.parentKeyEpoch key
        else
          (true, taken)
      if mayHold then
        let after :=
          seen.keepPrevious workspaceId node areaRoot heldPrevious
        if after.heldBack workspaceId then
          (.error NO_CHAIN, after)
        else
          (.ok key, after)
      else
        (.error NOT_COMMITTED_ROOT, seen.dropRoot workspaceId node.id)

/-- A new node's key, wrapped under its parent, and held. -/
def newNodeKey
    (ledger : Ledger V)
    (workspaceId : String)
    (node : NewNodeKey)
    (key nonce : Bytes) :
    Except CryptoError ((Key × Bytes) × Ledger V) := do
  let parentKey ←
    ledger.wrapKeyFor workspaceId node.parentId node.parentKeyEpoch
  let keyEnvelope ←
    V.wrapNodeKey nonce key parentKey (node.context workspaceId)
  let rootedAt ← ledger.rootOf workspaceId node.parentId node.parentKeyEpoch
  .ok ((key, keyEnvelope),
    ledger.rememberNodeKey workspaceId node.id key node.keyEpoch rootedAt)

/-- A walked node's key as it is now. -/
def currentKeyOf
    (ledger : Ledger V)
    (workspaceId : String)
    (node : RotatingNodeKey) :
    Except CryptoError Key :=
  match (ledger.nodeKey workspaceId node.id).filter fun cached =>
      cached.epoch = node.keyEpoch with
  | some cached => .ok cached.key
  | none => do
      let envelope ← decode node.keyEnvelope KEY_ENVELOPE_BYTES
      let parentKey ← ledger.parentKeyFor workspaceId node.parentId
        node.wrappedParentKeyEpoch
      V.openNodeKey envelope parentKey (node.wrappedContext workspaceId)

/-- The key a walk replaces; an area's top level is never a walk's. -/
def rotationOldKey
    (ledger : Ledger V)
    (workspaceId : String)
    (node : RotatingNodeKey) :
    Except CryptoError Key := do
  refuseIf
    (node.parentId = workspaceId ∧ ledger.isArea workspaceId = true)
    AREA_ROOT
  ledger.currentKeyOf workspaceId node

/-- What a walked node's key is rooted at: as held, or by its envelope. -/
def rewrapRoot
    (ledger : Ledger V)
    (workspaceId : String)
    (node : RotatingNodeKey) :
    Except CryptoError (Option Nat) :=
  match (ledger.nodeKey workspaceId node.id).filter fun cached =>
      cached.epoch = node.keyEpoch with
  | some _ => .ok (ledger.rootedAtOf workspaceId node.id)
  | none =>
    ledger.rootOf workspaceId node.parentId node.wrappedParentKeyEpoch

/-- Whether a key rooted somewhere may be carried into a new tree. -/
def mayCarry
    (ledger : Ledger V)
    (workspaceId : String)
    (rootedAt : Option Nat) :
    Except CryptoError Bool :=
  if ledger.isArea workspaceId then
    ledger.rootedNow workspaceId rootedAt
  else
    .ok true

/-- A walked node already at its target: the same key, wrapped anew. -/
def rewrapAtTarget
    (ledger : Ledger V)
    (workspaceId : String)
    (node : RotatingNodeKey)
    (old nonce : Bytes) :
    Except CryptoError (Bytes × Ledger V) := do
  let rootedAt ← ledger.rewrapRoot workspaceId node
  -- A key reached through one the rotation replaces is never carried over.
  let carried ← ledger.mayCarry workspaceId rootedAt
  refuseIf (carried = false) NOT_CARRIED
  let parentKey ←
    ledger.wrapKeyFor workspaceId node.parentId node.parentKeyEpoch
  let keyEnvelope ←
    V.wrapNodeKey nonce old parentKey (node.context workspaceId)
  match ledger.nodeKey workspaceId node.id with
  | some _ => .ok (keyEnvelope, ledger)
  | none =>
    .ok (keyEnvelope,
      ledger.rememberNodeKey workspaceId node.id old node.keyEpoch
        rootedAt)

/-- The parent key a walk's fresh key goes under, and its root. -/
def freshKeyParent
    (ledger : Ledger V)
    (workspaceId : String)
    (node : RotatingNodeKey) :
    Except CryptoError (Key × Option Nat) := do
  let key ← ledger.wrapKeyFor workspaceId node.parentId node.parentKeyEpoch
  let (_, rootedAt) ←
    ledger.parentKeyAndRoot workspaceId node.parentId node.parentKeyEpoch
  .ok (key, rootedAt)

/-- A walk's fresh key and the one it replaces, pending. -/
def setPending
    (ledger : Ledger V)
    (workspaceId nodeId : String)
    (pending : PendingKey) :
    Ledger V :=
  { ledger with
    pendingNodeKeys :=
      ledger.pendingNodeKeys.set (slot workspaceId nodeId) pending }

/-- One node of a walk to a target epoch. -/
def rotateKey
    (ledger : Ledger V)
    (workspaceId : String)
    (node : RotatingNodeKey)
    (targetEpoch : Nat)
    (fresh nonce : Bytes)
    (rekey : RekeyKeys → Except CryptoError τ) :
    Except CryptoError (Rotated τ × Ledger V) := do
  ledger.requireWritable workspaceId
  let old ← ledger.rotationOldKey workspaceId node
  if targetEpoch ≤ node.keyEpoch then do
    let (keyEnvelope, after) ←
      ledger.rewrapAtTarget workspaceId node old nonce
    .ok (.rewrap keyEnvelope old, after)
  else do
    refuseIf
      ((ledger.pendingNodeKeys.get? (slot workspaceId node.id)).map
        PendingKey.epoch = some targetEpoch)
      ITEM_CHANGED
    let (parentKey, rootedAt) ← ledger.freshKeyParent workspaceId node
    let result ← rekey { old, fresh, parentKey }
    .ok (.rekeyed result,
      ledger.setPending workspaceId node.id
        { fresh
          epoch := targetEpoch
          old
          oldEpoch := node.keyEpoch
          rootedAt })

/-- One node's fresh key its own, the old one its previous. -/
def commitOne (workspaceId : String) (ledger : Ledger V) (nodeId : String) :
    Ledger V :=
  let place := slot workspaceId nodeId
  match ledger.pendingNodeKeys.get? place with
  | none => ledger
  | some pending =>
    (({ ledger with
      pendingNodeKeys :=
        ledger.pendingNodeKeys.erase place }).rememberPrevNodeKey
      workspaceId nodeId pending.old pending.oldEpoch
      true).rememberNodeKey workspaceId nodeId pending.fresh pending.epoch
      pending.rootedAt

/-- The server took the batch: every fresh key is its node's own. -/
def commitPending
    (ledger : Ledger V)
    (workspaceId : String)
    (nodeIds : List String) :
    Ledger V :=
  nodeIds.foldl (commitOne workspaceId) ledger

/-- A walk abandoned: every fresh key pending in a workspace dropped. -/
def dropAllPending (ledger : Ledger V) (workspaceId : String) : Ledger V :=
  { ledger with
    pendingNodeKeys := ledger.pendingNodeKeys.keep fun place =>
      !isUnder workspaceId place }

/-- The server refused the batch: its fresh keys are dropped. -/
def dropPending
    (ledger : Ledger V)
    (workspaceId : String)
    (nodeIds : List String) :
    Ledger V :=
  { ledger with
    pendingNodeKeys := nodeIds.foldl
      (fun pending nodeId => pending.erase (slot workspaceId nodeId))
      ledger.pendingNodeKeys }

end Ledger

end Worker

end HushOS
