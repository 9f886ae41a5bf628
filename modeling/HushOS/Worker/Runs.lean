import HushOS.Worker.Nodes

namespace HushOS

open Toolkit

namespace Worker

/-!
# Runs of the ledger

Everything that changes a ledger, as one step of a run.  A refused operation
leaves the ledger as the operation leaves it when it throws.
-/

/-- What may be asked of a ledger. -/
inductive Op (V : Vault) where
  | commit (chain : Accepted V.toPrimitives)
  | uncommit (groupId : String)
  | owe (groupId : String)
  | kept (groupId : String)
  | forgetGroup (groupId : String)
  | forgetAllGroups
  | openArea
      (groupId workspaceId idSeed : String)
      (version : Nat)
      (key : Key)
      (served : Nat)
  | openPersonalWorkspace (workspaceId : String) (version : Nat) (key : Key)
  | holdWorkspaceKey (workspaceId : String) (version : Nat) (key : Key)
  | dropWorkspace (workspaceId : String)
  | clear
  | rootSeen (workspaceId nodeId : String) (epoch : Nat) (key : Key)
  | forgetNodeKey (workspaceId nodeId : String)
  | rememberNodeKey
      (workspaceId nodeId : String)
      (key : Key)
      (epoch : Nat)
      (rootedAt : Option Nat)
  | rememberPrevNodeKey
      (workspaceId nodeId : String)
      (key : Key)
      (epoch : Nat)
      (own : Bool)
  | openListedNode (workspaceId : String) (node : ServedNodeKey)
  | newNodeKey (workspaceId : String) (node : NewNodeKey) (key nonce : Bytes)
  | rotateKey
      (workspaceId : String)
      (node : RotatingNodeKey)
      (targetEpoch : Nat)
      (fresh nonce : Bytes)
      (rekey : RekeyKeys → Except CryptoError Unit)
  | rewrapNode (workspaceId : String) (node : NewNodeKey) (nonce : Bytes)
  | commitPending (workspaceId : String) (nodeIds : List String)
  | dropPending (workspaceId : String) (nodeIds : List String)
  | dropAllPending (workspaceId : String)

/-- What an operation that changes nothing when refused leaves. -/
def orUnchanged {V : Vault} (ledger : Ledger V) :
    Except CryptoError (α × Ledger V) → Ledger V
  | .ok (_, after) => after
  | .error _ => ledger

namespace Ledger

variable {V : Vault}

/-- The ledger after one operation. -/
def step (ledger : Ledger V) : Op V → Ledger V
  | .commit chain =>
    match ledger.commit chain with
    | .ok after => after
    | .error _ => ledger
  | .uncommit groupId => ledger.uncommit groupId
  | .owe groupId => ledger.owe groupId
  | .kept groupId => ledger.kept groupId
  | .forgetGroup groupId => ledger.forgetGroup groupId
  | .forgetAllGroups => ledger.forgetAllGroups
  | .openArea groupId workspaceId idSeed version key served =>
    orUnchanged ledger
      (ledger.openArea groupId workspaceId idSeed version key served)
  | .openPersonalWorkspace workspaceId version key =>
    match ledger.openPersonalWorkspace workspaceId version key with
    | .ok after => after
    | .error _ => ledger
  | .holdWorkspaceKey workspaceId version key =>
    ledger.holdWorkspaceKey workspaceId version key
  | .dropWorkspace workspaceId => ledger.dropWorkspace workspaceId
  | .clear => ledger.clear
  | .rootSeen workspaceId nodeId epoch key =>
    (ledger.rootSeen workspaceId nodeId epoch key).2
  | .forgetNodeKey workspaceId nodeId =>
    ledger.forgetNodeKey workspaceId nodeId
  | .rememberNodeKey workspaceId nodeId key epoch rootedAt =>
    ledger.rememberNodeKey workspaceId nodeId key epoch rootedAt
  | .rememberPrevNodeKey workspaceId nodeId key epoch own =>
    ledger.rememberPrevNodeKey workspaceId nodeId key epoch own
  | .openListedNode workspaceId node =>
    (ledger.openListedNode workspaceId node).2
  | .newNodeKey workspaceId node key nonce =>
    orUnchanged ledger (ledger.newNodeKey workspaceId node key nonce)
  | .rotateKey workspaceId node targetEpoch fresh nonce rekey =>
    orUnchanged ledger
      (ledger.rotateKey workspaceId node targetEpoch fresh nonce rekey)
  | .rewrapNode _ _ _ => ledger
  | .commitPending workspaceId nodeIds =>
    ledger.commitPending workspaceId nodeIds
  | .dropPending workspaceId nodeIds => ledger.dropPending workspaceId nodeIds
  | .dropAllPending workspaceId => ledger.dropAllPending workspaceId

/-- The ledger after operations, one after another. -/
def run (ledger : Ledger V) (ops : List (Op V)) : Ledger V :=
  ops.foldl step ledger

@[simp] theorem run_cons (ledger : Ledger V) (op : Op V) (ops : List (Op V)) :
    ledger.run (op :: ops) = (ledger.step op).run ops :=
  rfl

theorem run_append (ledger : Ledger V) (first second : List (Op V)) :
    ledger.run (first ++ second) = (ledger.run first).run second :=
  List.foldl_append

end Ledger

end Worker

end HushOS
