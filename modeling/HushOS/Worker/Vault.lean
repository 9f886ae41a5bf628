import HushOS.Primitives

namespace HushOS

open Toolkit

namespace Worker

/-!
# Node keys, ids and commitments

Every node of a workspace has a key, sealed under its parent's key in an
envelope that names the workspace, the node, its parent and both key epochs.
A group's area has an id derived under the group, and the group's rosters list
commitments to its keys.
-/

/-- The libraries' functions, with XChaCha20-Poly1305 beside the others. -/
structure Vault extends Primitives where
  /-- Plaintext, key, nonce, associated data. -/
  encrypt : Bytes → Bytes → Bytes → Bytes → Bytes
  /-- Ciphertext, key, nonce, associated data. -/
  decrypt : Bytes → Bytes → Bytes → Bytes → Option Bytes

/-- A symmetric key. -/
abbrev Key := Bytes

def KEY_BYTES : Nat := 32

def ENVELOPE_NONCE_BYTES : Nat := 24

def CHUNK_TAG_BYTES : Nat := 16

def KEY_ENVELOPE_BYTES : Nat :=
  ENVELOPE_NONCE_BYTES + KEY_BYTES + CHUNK_TAG_BYTES

def DRIVE_ENVELOPE_SUITE : Nat := 1

def ID_SEED_BYTES : Nat := 16

def DAMAGED : CryptoError :=
  ⟨"This encrypted envelope is damaged."⟩

def NOT_OPENED : CryptoError :=
  ⟨"This encrypted key could not be opened. It may belong to a different account or version, or it may be damaged."⟩

/-- Where a node's key is sealed. -/
structure NodeKeyContext where
  workspaceId : String
  nodeId : String
  parentId : String
  parentKeyEpoch : Nat
  keyEpoch : Nat
  deriving DecidableEq, Repr

/-- A UUID in a context, or refused. -/
def contextId (value what : String) : Except CryptoError Json.Plain := do
  refuseIf (isUuid value = false) (invalid what)
  .ok (.text value)

/-- A key epoch in a context, or refused. -/
def contextEpoch (value : Nat) (what : String) :
    Except CryptoError Json.Plain := do
  refuseIf (maxSafe < value ∨ value < 1) (invalid what)
  .ok (.number value)

/-- The associated data of a node key under a label. -/
def labelledContext (label : String) (ctx : NodeKeyContext) :
    Except CryptoError Bytes := do
  let workspaceId ← contextId ctx.workspaceId "workspace id"
  let nodeId ← contextId ctx.nodeId "node id"
  let parentId ← contextId ctx.parentId "parent id"
  let parentKeyEpoch ← contextEpoch ctx.parentKeyEpoch "parent key epoch"
  let keyEpoch ← contextEpoch ctx.keyEpoch "key epoch"
  .ok (Utf8.encode (Json.compact (.list
    [.text label, .number DRIVE_ENVELOPE_SUITE, workspaceId, nodeId,
      parentId, parentKeyEpoch, keyEpoch])))

/-- The associated data of a node key. -/
def nodeKeyContext (ctx : NodeKeyContext) : Except CryptoError Bytes :=
  labelledContext "hushos/drive/node-key" ctx

/-- The associated data of an area root's previous key. -/
def previousRootKeyContext (ctx : NodeKeyContext) :
    Except CryptoError Bytes :=
  labelledContext "hushos/drive/previous-root-key" ctx

/-- A UUID of version 8 from a digest's first sixteen bytes. -/
def uuidV8 (digest : Bytes) : String :=
  let bytes := (digest.take 16).mapIdx fun index byte =>
    if index = 6 then (byte &&& 0x0f) ||| 0x80
    else if index = 8 then (byte &&& 0x3f) ||| 0x80
    else byte
  let hex := (hexOf bytes).toList
  String.ofList
    (hex.take 8 ++ '-' :: (hex.drop 8).take 4 ++ '-' ::
      (hex.drop 12).take 4 ++ '-' :: (hex.drop 16).take 4 ++ '-' ::
      hex.drop 20)

namespace Vault

variable (V : Vault)

/-- The key an envelope holds under another, by what it is sealed with. -/
def openKey
    (envelope : Bytes)
    (parentKey : Key)
    (context : Except CryptoError Bytes) :
    Except CryptoError Key := do
  refuseIf (envelope.length ≠ KEY_ENVELOPE_BYTES) DAMAGED
  let aad ← context
  match V.decrypt (envelope.drop ENVELOPE_NONCE_BYTES) parentKey
      (envelope.take ENVELOPE_NONCE_BYTES) aad with
  | none => .error NOT_OPENED
  | some key =>
    if key.length = KEY_BYTES then
      .ok key
    else
      .error (invalid "node key")

/-- The node key an envelope holds. -/
def openNodeKey (envelope : Bytes) (parentKey : Key) (ctx : NodeKeyContext) :
    Except CryptoError Key :=
  V.openKey envelope parentKey (nodeKeyContext ctx)

/-- The area root's previous key an envelope holds. -/
def openPreviousRootKey
    (envelope : Bytes)
    (areaKey : Key)
    (ctx : NodeKeyContext) :
    Except CryptoError Key :=
  V.openKey envelope areaKey (previousRootKeyContext ctx)

/-- A node key in an envelope under its parent's, with a fresh nonce. -/
def wrapNodeKey
    (nonce : Bytes)
    (nodeKey parentKey : Key)
    (ctx : NodeKeyContext) :
    Except CryptoError Bytes := do
  refuseIf (nodeKey.length ≠ KEY_BYTES) (invalid "node key")
  let aad ← nodeKeyContext ctx
  .ok (nonce ++ V.encrypt nodeKey parentKey nonce aad)

/-- The id a seed derives for a group's area. -/
def deriveId (scopeId seed : String) : Except CryptoError String := do
  refuseIf (scopeId = "") (invalid "scope id")
  let _ ← withReason (invalid "id seed") (decode seed ID_SEED_BYTES)
  .ok (uuidV8 (V.sha256 (Utf8.encode (Json.compact (.list
    [.text "hushos/id", .number 1, .text "workspace", .text scopeId.toLower,
      .text seed])))))

/-- Whether a seed derives an area's id under a group. -/
def checkId (scopeId seed id : String) : Bool :=
  match V.deriveId scopeId seed with
  | .ok derived => derived = id
  | .error _ => false

/-- What a roster lists for an area key. -/
def areaKeyCommitment (workspaceKey : Key) : Except CryptoError String := do
  refuseIf (workspaceKey.length ≠ 32) (invalid "workspace key")
  .ok (Base64url.encode
    (V.hkdf workspaceKey
      (Utf8.encode "hushos/group/area-key/v2".toList)))

/-- What a format 2 roster lists for an area root's key. -/
def areaRootCommitment (rootKey : Key) : Except CryptoError String := do
  refuseIf (rootKey.length ≠ 32) (invalid "area root key")
  .ok (Base64url.encode
    (V.hkdf rootKey (Utf8.encode "hushos/group/area-root/v1".toList)))

end Vault

end Worker

end HushOS
