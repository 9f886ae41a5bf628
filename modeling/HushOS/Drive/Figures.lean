import HushOS.Drive.Access

namespace HushOS

open Toolkit

namespace Drive

/-!
# Storage figures

What a workspace may still take: its own allowance, or its family's pool.  A
pool counts in parts, the family folders together and each active member's own
workspace, each part rounded up to a whole GiB on its own.

Under the pool's lock the owner's membership is settled, so one transaction
sees one pool throughout; the retries of a pool that moved are not steps.
-/

def GIB : Int := 1073741824

/-- `wholeGibUp`: bytes rounded up to a whole GiB. -/
def wholeGibUp (bytes : Int) : Int :=
  if bytes ≤ 0 then 0 else (bytes + GIB - 1) / GIB * GIB

/-- `countedPool`: each part rounded up on its own, then summed. -/
def countedPool (parts : List Int) : Int :=
  (parts.map wholeGibUp).sum

/-- A part of a pool; the family folders together name no workspace. -/
structure PoolPart where
  workspaceId : Option Uuid
  used : Int
  reserved : Int
  deriving DecidableEq

/-- A part's bytes, with uploads in flight or without. -/
def PoolPart.bytes (part : PoolPart) (reserved : Bool) : Int :=
  part.used + (if reserved then part.reserved else 0)

/-- `counted`: a part as the pool counts it. -/
def counted (part : PoolPart) (reserved : Bool) : Int :=
  wholeGibUp (part.bytes reserved)

/-- `countedAll`: the whole pool as it counts it. -/
def countedAll (parts : List PoolPart) (reserved : Bool) : Int :=
  countedPool (parts.map fun part => part.bytes reserved)

/-- The group a workspace is an area of. -/
def groupOf (db : Database) (workspaceId : Uuid) : Option Uuid :=
  (db.workspaces.get? workspaceId).bind Workspace.groupId

/-- Whether a user is an active member of a family. -/
def activeMember (accounts : Accounts) (groupId userId : Uuid) : Bool :=
  accounts.memberships.any fun membership =>
    membership.groupId = groupId && membership.userId = userId &&
      membership.family && membership.active

/-- Whether a workspace is an active member's own. -/
def ownOfMember (accounts : Accounts) (groupId workspaceId : Uuid) : Bool :=
  match accounts.personalWorkspaces.get? workspaceId with
  | none => false
  | some userId => activeMember accounts groupId userId

/-- The family folders together. -/
def foldersPart (db : Database) (groupId : Uuid) : PoolPart where
  workspaceId := none
  used := db.storage.total fun id row =>
    if groupOf db id = some groupId then row.usedBytes else 0
  reserved := db.storage.total fun id row =>
    if groupOf db id = some groupId then row.reservedBytes else 0

/-- `poolParts`: the folders, then each active member's own workspace. -/
def poolParts (db : Database) (groupId : Uuid) : List PoolPart :=
  foldersPart db groupId ::
    (db.storage.select fun id _ =>
      ownOfMember db.accounts groupId id).map fun entry =>
        { workspaceId := some entry.1
          used := entry.2.usedBytes
          reserved := entry.2.reservedBytes }

/-- `planLive`: billing wrote an end and it is ahead. -/
def planLive (pool : Pool) (now : Nat) : Bool :=
  match pool.expiresAt with
  | none => false
  | some expiresAt => decide (now < expiresAt)

/-- What a pool shows its members. -/
structure Shown where
  used : Int
  free : Int
  deriving DecidableEq

/-- The figures of a workspace. -/
structure StorageFigures where
  allowance : Int
  used : Int
  reserved : Int
  free : Int
  /-- A pool's figures as its members read them; null for an own allowance. -/
  shown : Option Shown
  /-- The family whose pool these figures are. -/
  pool : Option Uuid
  deriving DecidableEq

/-- `ownFigures`: the base and every grant in force now. -/
def ownFigures
    (db : Database)
    (workspaceId : Uuid)
    (own : Storage)
    (now : Nat) : StorageFigures :=
  let grants := db.accounts.entitlements.filter fun grant =>
    grant.workspaceId = workspaceId && grant.revokedAt.isNone &&
      grant.startsAt ≤ now &&
      match grant.expiresAt with
      | none => true
      | some expiresAt => decide (now < expiresAt)
  let allowance :=
    own.baseQuotaBytes + (grants.map Entitlement.quotaBytes).sum
  { allowance := allowance
    used := own.usedBytes
    reserved := own.reservedBytes
    free := allowance - own.usedBytes - own.reservedBytes
    shown := none
    pool := none }

/-- Whether a part is the one a workspace's bytes are in. -/
def isPartOf
    (workspaceId : Uuid)
    (isArea : Bool)
    (part : PoolPart) : Bool :=
  if isArea then
    part.workspaceId = none
  else
    part.workspaceId = some workspaceId

/--
`poolFigures`, from the pool's parts: what the workspace may take is the pool
less every other part as it counts, less its own part to the byte for a
member's own files and in whole GiB for the folders.
-/
def figuresOfParts
    (parts : List PoolPart)
    (groupId workspaceId : Uuid)
    (isArea : Bool)
    (allowance : Int) : StorageFigures :=
  let own := (parts.find? (isPartOf workspaceId isArea)).getD
    { workspaceId := none, used := 0, reserved := 0 }
  let others := countedAll parts true - counted own true
  let mine := if isArea then counted own true else own.bytes true
  { allowance := allowance
    used := (parts.map PoolPart.used).sum
    reserved := (parts.map PoolPart.reserved).sum
    free := allowance - others - mine
    shown := some
      { used := countedAll parts false
        free := allowance - countedAll parts true }
    pool := some groupId }

/-- `poolFigures`: past the plan's period the pool is empty. -/
def poolFigures
    (db : Database)
    (groupId workspaceId : Uuid)
    (isArea : Bool)
    (pool : Pool)
    (now : Nat) : StorageFigures :=
  figuresOfParts (poolParts db groupId) groupId workspaceId isArea
    (if planLive pool now then pool.quotaBytes else 0)

/-- `activeFamilyId`: the family the user is an active member of. -/
def activeFamilyId (accounts : Accounts) (userId : Uuid) : Option Uuid :=
  (accounts.memberships.find? fun membership =>
    membership.userId = userId && membership.family &&
      membership.active).map Membership.groupId

/-- `storageFigures`: what a workspace may still take; null without a row. -/
def storageFigures
    (db : Database)
    (workspaceId : Uuid)
    (now : Nat) : Option StorageFigures :=
  match db.workspaces.get? workspaceId, db.storage.get? workspaceId with
  | none, _ => none
  | _, none => none
  | some workspace, some own =>
    if db.accounts.billing then
      match workspace.groupId with
      | some groupId =>
        match db.accounts.groupStorage.get? groupId with
        | some pool =>
          some (poolFigures db groupId workspaceId true pool now)
        | none => some (ownFigures db workspaceId own now)
      | none =>
        match (db.accounts.personalWorkspaces.get? workspaceId).bind
            (activeFamilyId db.accounts) with
        | some familyId =>
          match db.accounts.groupStorage.get? familyId with
          | some pool =>
            if planLive pool now then
              some (poolFigures db familyId workspaceId false pool now)
            else
              some (ownFigures db workspaceId own now)
          | none => some (ownFigures db workspaceId own now)
        | none => some (ownFigures db workspaceId own now)
    else
      some (ownFigures db workspaceId own now)

/-- `named`: the free space a refusal names. -/
def named (free : Int) : Int :=
  if 0 < free then free else 0

/-- `samePool`: a source draws from the destination's pool. -/
def samePool
    (db : Database)
    (destination : StorageFigures)
    (sourceWorkspaceId : Uuid)
    (now : Nat) : Bool :=
  match destination.pool with
  | none => false
  | some groupId =>
    match storageFigures db sourceWorkspaceId now with
    | none => false
    | some source => source.pool = some groupId

end Drive

end HushOS
