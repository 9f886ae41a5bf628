import HushOS.Toolkit.Cells
import HushOS.Worker.Nodes

namespace HushOS

open Toolkit

namespace Worker

/-!
# Keys in memory

Every node key is one buffer, zeroed in place and handed from map to map: the
worker's ledger is what the buffers its maps hold contain.  A walk of a node
waits, between the key it replaces and the fresh one, on what is awaited.
-/

/-- The maps of node keys held. -/
inductive Pool where
  | ownNodeKeys
  | guestNodeKeys
  | ownPrevNodeKeys
  | guestPrevNodeKeys
  deriving DecidableEq, Repr

/-- A node's key as held, by its buffer. -/
structure HeldCell where
  cell : Nat
  epoch : Nat
  own : Bool := false
  deriving DecidableEq, Repr

/-- A walk's fresh key and the one it replaces, by their buffers. -/
structure PendingCells where
  fresh : Nat
  epoch : Nat
  old : Nat
  oldEpoch : Nat
  rootedAt : Option Nat
  deriving DecidableEq, Repr

/-- What a call of `rotateKey` waits for, and the buffers it has meanwhile. -/
inductive Stage where
  /-- The node's key as it is: a copy of the one held, or its envelope's. -/
  | opening (old : Option Nat)
  /-- The same key wrapped anew, held then if the session held none. -/
  | rewrapping (old : Nat) (held : Option (Option Nat))
  /-- The node's records re-keyed. -/
  | rekeying (fresh old : Nat) (rootedAt : Option Nat)
  deriving DecidableEq, Repr

/-- A call of `rotateKey` that has not ended. -/
structure Call where
  workspaceId : String
  node : RotatingNodeKey
  target : Nat
  stage : Stage
  deriving DecidableEq, Repr

/-- The place of the node a call walks. -/
def Call.place (call : Call) : String :=
  slot call.workspaceId call.node.id

/-- The buffer of the key a call may replace. -/
def Stage.old? : Stage → Option Nat
  | .opening old => old
  | .rewrapping old _ => some old
  | .rekeying _ old _ => some old

/-- The buffer of a call's fresh key. -/
def Stage.fresh? : Stage → Option Nat
  | .rekeying fresh _ _ => some fresh
  | _ => none

/-- The worker's buffers, the maps that hold them and the calls in flight. -/
structure Memory (V : Vault) where
  cells : Nat → Key
  /-- How many buffers were made. -/
  made : Nat
  pools : Pool → OrderedMap String HeldCell
  pendingNodeKeys : OrderedMap String PendingCells
  /-- The ledger's other maps. -/
  rest : Ledger V
  calls : OrderedMap Nat Call

/-- A held key, read from its buffer. -/
def HeldCell.read (cells : Nat → Key) (held : HeldCell) : HeldKey where
  key := cells held.cell
  epoch := held.epoch
  own := held.own

/-- A pending key, read from its buffers. -/
def PendingCells.read (cells : Nat → Key) (pending : PendingCells) :
    PendingKey where
  fresh := cells pending.fresh
  epoch := pending.epoch
  old := cells pending.old
  oldEpoch := pending.oldEpoch
  rootedAt := pending.rootedAt

/-- A key zeroed. -/
def zeros (key : Key) : Key :=
  List.replicate key.length 0

namespace Memory

variable {V : Vault}

/-- A worker that holds nothing. -/
def start (V : Vault) : Memory V where
  cells := fun _ => []
  made := 0
  pools := fun _ => .empty
  pendingNodeKeys := .empty
  rest := createAreaLedger V
  calls := .empty

/-- What a map of held keys contains. -/
def poolKeys (memory : Memory V) (pool : Pool) : OrderedMap String HeldKey :=
  (memory.pools pool).mapValues (HeldCell.read memory.cells)

/-- The ledger as the buffers read. -/
def ledger (memory : Memory V) : Ledger V :=
  { memory.rest with
    ownNodeKeys := memory.poolKeys .ownNodeKeys
    guestNodeKeys := memory.poolKeys .guestNodeKeys
    ownPrevNodeKeys := memory.poolKeys .ownPrevNodeKeys
    guestPrevNodeKeys := memory.poolKeys .guestPrevNodeKeys
    pendingNodeKeys :=
      memory.pendingNodeKeys.mapValues (PendingCells.read memory.cells) }

/-- Buffers zeroed in place. -/
def zero (memory : Memory V) (gone : List Nat) : Memory V :=
  { memory with cells := Cells.wipe zeros gone memory.cells }

/-- A key in a new buffer. -/
def put (memory : Memory V) (key : Key) : Memory V :=
  { memory with
    cells := fun cell =>
      if cell = memory.made then key else memory.cells cell
    made := memory.made + 1 }

/-- The map a workspace's node keys are held in. -/
def nodePool (memory : Memory V) (workspaceId : String) : Pool :=
  if memory.rest.workspaceKeys.has workspaceId then
    .ownNodeKeys
  else
    .guestNodeKeys

/-- The map a workspace's previous node keys are held in. -/
def prevPool (memory : Memory V) (workspaceId : String) : Pool :=
  if memory.rest.workspaceKeys.has workspaceId then
    .ownPrevNodeKeys
  else
    .guestPrevNodeKeys

/-- The buffer held at a place. -/
def cellsAt (memory : Memory V) (pool : Pool) (place : String) : List Nat :=
  (((memory.pools pool).get? place).map HeldCell.cell).toList

/-- A buffer held at a place, and the one held there before zeroed. -/
def hold
    (memory : Memory V)
    (pool : Pool)
    (place : String)
    (held : HeldCell) :
    Memory V :=
  { memory.zero (memory.cellsAt pool place) with
    pools := fun other =>
      if other = pool then
        (memory.pools pool).set place held
      else
        memory.pools other }

/-- A node's key held, with what its path is rooted at. -/
def rememberNodeKey
    (memory : Memory V)
    (workspaceId nodeId : String)
    (cell epoch : Nat)
    (rootedAt : Option Nat) :
    Memory V :=
  let place := slot workspaceId nodeId
  { memory.hold (memory.nodePool workspaceId) place { cell, epoch } with
    rest :=
      { memory.rest with
        lineage := memory.rest.lineage.set place rootedAt
        rootOpenedUnder := memory.rest.rootOpenedUnder.erase place } }

/-- A node's previous key held. -/
def rememberPrevNodeKey
    (memory : Memory V)
    (workspaceId nodeId : String)
    (cell epoch : Nat)
    (own : Bool) :
    Memory V :=
  memory.hold (memory.prevPool workspaceId) (slot workspaceId nodeId)
    { cell, epoch, own }

/-- Both buffers of a pending key. -/
def both (pending : PendingCells) : List Nat :=
  [pending.fresh, pending.old]

/-- The buffers pending at a place. -/
def pendingAt (memory : Memory V) (place : String) : List Nat :=
  (memory.pendingNodeKeys.get? place).elim [] both

/-- A walk's fresh key and the one it replaces, pending. -/
def setPending
    (memory : Memory V)
    (workspaceId nodeId : String)
    (pending : PendingCells) :
    Memory V :=
  let place := slot workspaceId nodeId
  { memory.zero (memory.pendingAt place) with
    pendingNodeKeys := memory.pendingNodeKeys.set place pending }

/-- A pending key taken out of its map, its buffers as they are. -/
def takePending (memory : Memory V) (place : String) : Memory V :=
  { memory with pendingNodeKeys := memory.pendingNodeKeys.erase place }

/-- One node's fresh key its own, the old one its previous. -/
def commitOne (workspaceId : String) (memory : Memory V) (nodeId : String) :
    Memory V :=
  match memory.pendingNodeKeys.get? (slot workspaceId nodeId) with
  | none => memory
  | some pending =>
    ((memory.takePending (slot workspaceId nodeId)).rememberPrevNodeKey
      workspaceId nodeId pending.old pending.oldEpoch true).rememberNodeKey
      workspaceId nodeId pending.fresh pending.epoch pending.rootedAt

/-- The server took the batch: every fresh key is its node's own. -/
def commitPending
    (memory : Memory V)
    (workspaceId : String)
    (nodeIds : List String) :
    Memory V :=
  nodeIds.foldl (commitOne workspaceId) memory

/-- One node's fresh key and the one it was to replace, dropped. -/
def dropOne (workspaceId : String) (memory : Memory V) (nodeId : String) :
    Memory V :=
  (memory.takePending (slot workspaceId nodeId)).zero
    (memory.pendingAt (slot workspaceId nodeId))

/-- The server refused the batch: its fresh keys are dropped. -/
def dropPending
    (memory : Memory V)
    (workspaceId : String)
    (nodeIds : List String) :
    Memory V :=
  nodeIds.foldl (dropOne workspaceId) memory

/-- Pending keys at the places that pass a test, dropped. -/
def dropPendingWhere (memory : Memory V) (test : String → Bool) : Memory V :=
  { memory.zero ((memory.pendingNodeKeys.keep test).values.flatMap both) with
    pendingNodeKeys := memory.pendingNodeKeys.keep fun place => !test place }

/-- A walk abandoned: every fresh key pending in a workspace dropped. -/
def dropAllPending (memory : Memory V) (workspaceId : String) : Memory V :=
  memory.dropPendingWhere (isUnder workspaceId)

/-- Keys held at the places that pass a test, dropped. -/
def dropHeldWhere (memory : Memory V) (test : String → Bool) : Memory V :=
  { memory.zero ([Pool.ownNodeKeys, .guestNodeKeys, .ownPrevNodeKeys,
      .guestPrevNodeKeys].flatMap fun pool =>
        ((memory.pools pool).keep test).values.map HeldCell.cell) with
    pools := fun pool =>
      (memory.pools pool).keep fun place => !test place }

/-- A call no longer in flight. -/
def endCall (memory : Memory V) (id : Nat) : Memory V :=
  { memory with calls := memory.calls.erase id }

/-- A call that waits for something else. -/
def await (memory : Memory V) (id : Nat) (call : Call) (stage : Stage) :
    Memory V :=
  { memory with calls := memory.calls.set id { call with stage } }

end Memory

namespace Ledger

variable {V : Vault}

/-- What a call asks before it waits: the key held, none for its envelope's. -/
def toReplace
    (ledger : Ledger V)
    (workspaceId : String)
    (node : RotatingNodeKey) :
    Except CryptoError (Option Key) := do
  ledger.requireWritable workspaceId
  refuseIf
    (node.parentId = workspaceId ∧ ledger.isArea workspaceId = true)
    AREA_ROOT
  match (ledger.nodeKey workspaceId node.id).filter fun cached =>
      cached.epoch = node.keyEpoch with
  | some cached => .ok (some cached.key)
  | none => do
      let _ ← decode node.keyEnvelope KEY_ENVELOPE_BYTES
      let _ ← ledger.parentKeyFor workspaceId node.parentId
        node.wrappedParentKeyEpoch
      .ok none

/-- What a node already at its target is rooted at, where it may be carried. -/
def toRewrap
    (ledger : Ledger V)
    (workspaceId : String)
    (node : RotatingNodeKey) :
    Except CryptoError (Option Nat) := do
  let rootedAt ← ledger.rewrapRoot workspaceId node
  let carried ← ledger.mayCarry workspaceId rootedAt
  refuseIf (carried = false) NOT_CARRIED
  let _ ← ledger.wrapKeyFor workspaceId node.parentId node.parentKeyEpoch
  .ok rootedAt

/-- What a node's fresh key is rooted at, where no walk to its target waits. -/
def toRekey
    (ledger : Ledger V)
    (workspaceId : String)
    (node : RotatingNodeKey)
    (target : Nat) :
    Except CryptoError (Option Nat) := do
  refuseIf
    ((ledger.pendingNodeKeys.get? (slot workspaceId node.id)).map
      PendingKey.epoch = some target)
    ITEM_CHANGED
  let (_, rootedAt) ← ledger.freshKeyParent workspaceId node
  .ok rootedAt

end Ledger

namespace Memory

variable {V : Vault}

/-- A call of `rotateKey`, until it first waits. -/
def begins
    (memory : Memory V)
    (id : Nat)
    (workspaceId : String)
    (node : RotatingNodeKey)
    (target : Nat) :
    Memory V :=
  if memory.calls.has id then
    memory
  else
    match memory.ledger.toReplace workspaceId node with
    | .error _ => memory
    | .ok none =>
      memory.await id { workspaceId, node, target, stage := .opening none }
        (.opening none)
    | .ok (some key) =>
      (memory.put key).await id
        { workspaceId, node, target, stage := .opening none }
        (.opening (some memory.made))

/-- A call that has the key it may replace, until it waits again. -/
def goesOn
    (memory : Memory V)
    (id : Nat)
    (call : Call)
    (old : Nat)
    (fresh : Key) :
    Memory V :=
  if call.target ≤ call.node.keyEpoch then
    match memory.ledger.toRewrap call.workspaceId call.node with
    | .error _ => (memory.endCall id).zero [old]
    | .ok rootedAt =>
      memory.await id call (.rewrapping old
        (if (memory.ledger.nodeKey call.workspaceId
            call.node.id).isNone then
          some rootedAt
        else
          none))
  else
    match memory.ledger.toRekey call.workspaceId call.node call.target with
    | .error _ => (memory.endCall id).zero [old]
    | .ok rootedAt =>
      (memory.put fresh).await id call
        (.rekeying memory.made old rootedAt)

/-- A call that waited for the key it may replace. -/
def resumes
    (memory : Memory V)
    (id : Nat)
    (opened : Except CryptoError Key)
    (fresh : Key) :
    Memory V :=
  match memory.calls.get? id with
  | some { workspaceId, node, target, stage := .opening old } =>
    let call : Call := { workspaceId, node, target, stage := .opening old }
    match old, opened with
    | some old, _ => memory.goesOn id call old fresh
    | none, .ok key => (memory.put key).goesOn id call memory.made fresh
    | none, .error _ => memory.endCall id
  | _ => memory

/-- A call that waited for its node's key wrapped anew. -/
def wrapped (memory : Memory V) (id : Nat) (done : Bool) : Memory V :=
  match memory.calls.get? id with
  | some { workspaceId, node, target := _, stage := .rewrapping old held } =>
    match done, held with
    | true, some rootedAt =>
      (memory.endCall id).rememberNodeKey workspaceId node.id old
        node.keyEpoch rootedAt
    | _, _ => (memory.endCall id).zero [old]
  | _ => memory

/-- A call that waited for its node's records re-keyed. -/
def rekeyed (memory : Memory V) (id : Nat) (done : Bool) : Memory V :=
  match memory.calls.get? id with
  | some
      { workspaceId, node, target,
        stage := .rekeying fresh old rootedAt } =>
      if done then
        (memory.endCall id).setPending workspaceId node.id
          { fresh, epoch := target, old, oldEpoch := node.keyEpoch, rootedAt }
      else
        (memory.endCall id).zero [fresh, old]
  | _ => memory

end Memory

/-- What may happen in the worker, as far as node keys go. -/
inductive Move (V : Vault) where
  | begins
      (id : Nat)
      (workspaceId : String)
      (node : RotatingNodeKey)
      (target : Nat)
  /-- The key a call replaces was opened, or not; a fresh key is drawn. -/
  | resumes (id : Nat) (opened : Except CryptoError Key) (fresh : Key)
  | wrapped (id : Nat) (done : Bool)
  | rekeyed (id : Nat) (done : Bool)
  | commits (workspaceId : String) (nodeIds : List String)
  | drops (workspaceId : String) (nodeIds : List String)
  | dropsAll (workspaceId : String)
  /-- A key opened from a listing, or made for a new node. -/
  | holds
      (workspaceId nodeId : String)
      (key : Key)
      (epoch : Nat)
      (rootedAt : Option Nat)
  | holdsPrevious
      (workspaceId nodeId : String)
      (key : Key)
      (epoch : Nat)
      (own : Bool)
  | dropsHeld (test : String → Bool)
  | dropsPending (test : String → Bool)
  /-- Anything else the ledger keeps. -/
  | others (rest : Ledger V)

/-- The worker's memory after one move. -/
def Memory.step {V : Vault} (memory : Memory V) : Move V → Memory V
  | .begins id workspaceId node target =>
    memory.begins id workspaceId node target
  | .resumes id opened fresh => memory.resumes id opened fresh
  | .wrapped id done => memory.wrapped id done
  | .rekeyed id done => memory.rekeyed id done
  | .commits workspaceId nodeIds => memory.commitPending workspaceId nodeIds
  | .drops workspaceId nodeIds => memory.dropPending workspaceId nodeIds
  | .dropsAll workspaceId => memory.dropAllPending workspaceId
  | .holds workspaceId nodeId key epoch rootedAt =>
    (memory.put key).rememberNodeKey workspaceId nodeId memory.made epoch
      rootedAt
  | .holdsPrevious workspaceId nodeId key epoch own =>
    (memory.put key).rememberPrevNodeKey workspaceId nodeId memory.made
      epoch own
  | .dropsHeld test => memory.dropHeldWhere test
  | .dropsPending test => memory.dropPendingWhere test
  | .others rest => { memory with rest }

end Worker

end HushOS
