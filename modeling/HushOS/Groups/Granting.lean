import HushOS.Groups.Folders

namespace HushOS

open Toolkit

namespace Groups

/-!
# A family's area grants

The group, its folders and the grants of their keys as one state.  A roster's
call owes grants: a new or rotated key to every member who remains, every key
to whom it admits, and each gap there is already.  What is owed is read outside
the group's lock, in three readings that other writes land between; the grants
are stored under it.
-/

/-- What a grant names, as a call carries it. -/
structure GrantWire where
  workspaceId : String
  workspaceKeyVersion : Nat
  granteeUserId : String
  granteeKeyVersion : Nat
  rosterVersion : Nat
  rosterDigest : String
  envelope : String
  deriving DecidableEq, Repr

/-- A grant, with whose it is. -/
structure GrantInput extends GrantWire where
  granterUserId : String
  deriving DecidableEq, Repr

/-- What a stored grant is kept by: area, version, grantee, and identity. -/
abbrev GrantRow : Type := String × Nat × String × Nat

/-- The row a grant is stored in. -/
def GrantWire.row (grant : GrantWire) : GrantRow :=
  (grant.workspaceId, grant.workspaceKeyVersion, grant.granteeUserId,
    grant.granteeKeyVersion)

/-- A group, its rosters, its folders and the grants of their keys. -/
structure Family where
  group : Group
  rosters : List Roster
  areas : OrderedMap String Area
  grants : OrderedMap GrantRow GrantInput

/-- Why a family's call is refused. -/
inductive FamilyRefusal where
  | refused (refusal : Refusal)
  | grantsDue (missing : List (String × String))
  deriving DecidableEq, Repr

/-- A part of a call that a family's call is refused as. -/
def refusing : Except Refusal α → Except FamilyRefusal α
  | .ok value => .ok value
  | .error refusal => .error (.refused refusal)

@[simp] theorem refusing_eq_ok
    {answer : Except Refusal α}
    {value : α} :
    refusing answer = .ok value ↔ answer = .ok value := by
  cases answer <;> simp [refusing]

namespace Family

/-- The family's folders along its chain. -/
def folders (family : Family) : Folders where
  rosters := family.rosters
  head := family.group.head
  chainRevision := family.group.chainRevision
  areas := family.areas

/-- Whether someone has a grant of a version of an area's key. -/
def granted
    (family : Family)
    (workspaceId : String)
    (version : Nat)
    (userId : String) : Bool :=
  family.grants.keys.any fun row =>
    row.1 = workspaceId && row.2.1 = version && row.2.2.1 = userId

/-- Someone's grants and self-grants go. -/
def revoke (family : Family) (userId : String) : Family :=
  { family with
    grants := family.grants.keep fun row => row.2.2.1 ≠ userId
    areas := family.areas.mapValues fun area =>
      { area with selfGrants := area.selfGrants.erase userId } }

/-- Every folder is deleted, as its group is dissolved. -/
def retireAllAreas (family : Family) : Family :=
  { family with
    areas := family.areas.mapValues fun area => { area with deleted := true } }

end Family

/-- The live areas, with their keys' versions. -/
def listAreas (family : Family) : List (String × Nat) :=
  sortBy Prod.fst (family.areas.entries.filterMap fun entry =>
    if entry.2.deleted then none
    else some (entry.1, entry.2.workspaceKeyVersion))

/-- Who lacks a grant of a live area's current key. -/
def missingGrants (family : Family) : List (String × String) :=
  (listAreas family).flatMap fun area =>
    ((sortBy id (listActiveMemberIds family.group)).filter fun userId =>
      !family.granted area.1 area.2 userId).map fun userId => (area.1, userId)

/-- A call under way, with what it read of the chain and of the grants owed. -/
structure FamilyReading where
  members : Reading
  ledger : AreaLedger
  areas : List (String × Nat)
  gaps : List (String × String)

/-- What a call read of the chain's areas. -/
def FamilyReading.folders (reading : FamilyReading) : FolderReading where
  head := reading.members.chain.roster
  ledger := reading.ledger
  revision := reading.members.chain.revision

def MAX_GRANTS_PER_CALL : Nat := 256

/--
Each grant is to an active member of the head at their entry's key version, of
a version the chain lists of an area it has not retired.
-/
def checkGrants
    (head : Roster)
    (ledger : AreaLedger)
    (uploader : String)
    (grants : List GrantWire) : Except Refusal (List GrantInput) := do
  refuseIf (MAX_GRANTS_PER_CALL < grants.length) (.invalid "too-many-grants")
  forEach
    (fun grant : GrantWire => do
      let grantee := rosterEntry head grant.granteeUserId
      refuseIf
        (active grantee = false ∨
          grantee.map RosterMember.keyVersion ≠ some grant.granteeKeyVersion)
        (.membersChanged "grantee")
      refuseIf (grant.workspaceId ∈ ledger.retired)
        (.invalid "grant-area-retired")
      refuseIf
        ((ledger.keys.listAt grant.workspaceId).length <
          grant.workspaceKeyVersion)
        (.invalid "grant-area-version"))
    grants
  .ok (grants.map fun grant => { grant with granterUserId := uploader })

/-- What a grant gives: a version of an area's key, to someone. -/
abbrev Owed : Type := String × Nat × String

/-- What a grant gives. -/
def GrantWire.gives (grant : GrantWire) : Owed :=
  (grant.workspaceId, grant.workspaceKeyVersion, grant.granteeUserId)

/-- Whom a roster leaves active: its members still there, and whom it admits. -/
def remainingOf
    (head : Roster)
    (admitted : Option String)
    (active_ : List String) : List String :=
  (head.members.filter fun entry =>
      active (some entry) &&
        (active_.contains entry.userId ||
          admitted = some entry.userId)).map RosterMember.userId

/-- The grants a call owes: its own keys' to all, and every key to whom it admits. -/
def owedOf
    (head : Roster)
    (keyed : List (String × Nat))
    (admitted : Option String)
    (active_ : List String)
    (areas : List (String × Nat)) : List Owed :=
  (keyed.flatMap fun area =>
      (remainingOf head admitted active_).map fun userId =>
        (area.1, area.2, userId)) ++
    match admitted with
    | some userId =>
      (areas.filter fun area =>
          !keyed.any fun other => other.1 = area.1).map fun area =>
        (area.1, area.2, userId)
    | none => []

/-- Grants owed in a family, where every member opens every area. -/
def requireGrantsOwed
    (head : Roster)
    (keyed : List (String × Nat))
    (grants : List GrantWire)
    (admitted retiring : Option String)
    (reading : FamilyReading) : Except FamilyRefusal Unit := do
  let owed := owedOf head keyed admitted reading.members.active reading.areas
  let missing := owed.filter fun one =>
    !grants.any fun grant => grant.gives = one
  -- All of them when they fit in one call; otherwise a full call.
  refuseIf
    (missing ≠ [] ∧
      (owed.length ≤ MAX_GRANTS_PER_CALL ∨
        grants.length < MAX_GRANTS_PER_CALL))
    (.refused (.invalid "rotation-grants"))
  -- A gap is let pass by any grant of its area, at whatever version.
  let unpaid := reading.gaps.filter fun gap =>
    retiring ≠ some gap.1 && !keyed.any (fun area => area.1 = gap.1) &&
      !grants.any fun grant =>
        grant.workspaceId = gap.1 && grant.granteeUserId = gap.2
  refuseIf (unpaid ≠ []) (.grantsDue unpaid)

/-- A grant stored: one to the same identity is replaced where it may be. -/
def putGrant
    (uploader : String)
    (uploaderHolds : Bool)
    (grants : OrderedMap GrantRow GrantInput)
    (grant : GrantInput) : OrderedMap GrantRow GrantInput :=
  if grants.has grant.row = true ∧ grant.granteeUserId ≠ uploader ∧
      uploaderHolds = false then
    grants
  else
    grants.set grant.row grant

/--
Each grant is by the uploader, to an active member, of a version a live area
has reached.  Who does not hold `members` only fills gaps, their own rows
apart.
-/
def upsertGrants
    (uploader : String)
    (uploaderHolds : Bool)
    (grants : List GrantInput)
    (family : Family) : Except Refusal Family := do
  forEach
    (fun grant : GrantInput => do
      refuseIf (grant.granterUserId ≠ uploader) .forbidden
      refuseIf (family.group.isActive grant.granteeUserId = false)
        (.membersChanged "grantee")
      let area ← liveArea family.folders grant.workspaceId "area"
      refuseIf (area.workspaceKeyVersion < grant.workspaceKeyVersion)
        (.invalid "area-key-version"))
    grants
  let writable := grants.filter fun grant =>
    uploaderHolds || grant.granteeUserId = uploader ||
      !family.granted grant.workspaceId grant.workspaceKeyVersion
        grant.granteeUserId
  -- One statement never writes one row twice.
  refuseIf (¬ (writable.map fun grant => grant.row).Nodup) .stale
  .ok { family with
    grants := writable.foldl (putGrant uploader uploaderHolds) family.grants }

/-- A roster route's call, with its folders and grants. -/
structure FamilyCall where
  members : RosterCall
  newArea : Option AreaInput
  retireArea : Option String
  rotations : List RotationInput
  grants : List GrantWire

/-- What a call does to the folders. -/
def FamilyCall.folders (call : FamilyCall) : FolderCall where
  uploader := call.members.uploader
  expectedRevision := call.members.expectedRevision
  route := call.members.route
  roster := call.members.roster
  newArea := call.newArea
  retireArea := call.retireArea
  rotations := call.rotations
  elsewhere := call.members.elsewhere

/-- The areas a call gives a key to, at its version. -/
def FamilyCall.keyed (call : FamilyCall) : List (String × Nat) :=
  (call.rotations.map fun rotation =>
      (rotation.workspaceId, rotation.toVersion)) ++
    call.newArea.toList.map fun area => (area.workspaceId, 1)

/-- The grants a call owes, as it reads who is there. -/
def FamilyCall.owed (call : FamilyCall) (reading : FamilyReading) :
    List Owed :=
  owedOf call.members.roster.val call.keyed call.members.route.admitted
    reading.members.active reading.areas

/-- A removal's part: the person removed loses their access. -/
def revokeRemoved (family : Family) (route : ChainRoute) : Family :=
  match route with
  | .remove userId =>
    if stateOf family.group.memberships userId = some .active then
      family.revoke userId
    else
      family
  | _ => family

/--
Every roster route: its checks against what it read, then the write.  The
checks are grouped by what they are about, which decides only which refusal is
answered.
-/
def writeFamily
    (family : Family)
    (reading : FamilyReading)
    (call : FamilyCall) : Except FamilyRefusal Family := do
  refusing (refuseIf (call.members.route = .retire ∧ call.grants ≠ [])
    (.invalid "area-delete"))
  let group ← refusing
    (writeChain family.group reading.members call.members)
  let revoked := revokeRemoved family call.members.route
  let folders ← refusing
    (writeFolders revoked.folders reading.folders call.folders)
  let grants ← refusing
    (checkGrants call.members.roster.val folders.ledger call.members.uploader
      call.grants)
  requireGrantsOwed call.members.roster.val call.keyed call.grants
    call.members.route.admitted call.retireArea reading
  refusing
    (upsertGrants call.members.uploader true grants
      { group
        rosters := folders.rosters
        areas := folders.areas
        grants := revoked.grants })

/-- Grants on their own, checked against the chain the call read. -/
def putGrants
    (family : Family)
    (reading : FamilyReading)
    (uploader : String)
    (grants : List GrantWire) : Except Refusal Family := do
  let given ← checkGrants reading.members.chain.roster reading.ledger uploader
    grants
  lockGroup family.group
  let roles ← uploaderRoles family.group uploader
  upsertGrants uploader (roles.contains .members) given family

/-- A family with the calls under way. -/
structure Household where
  family : Family
  calls : OrderedMap Nat FamilyReading

/-- One step of anyone. -/
inductive FamilyMove where
  | read (number : Nat)
  | listMembers (number : Nat)
  | listAreas (number : Nat)
  | listGaps (number : Nat)
  | write (number : Nat) (call : FamilyCall)
  | succeed (number : Nat) (call : SuccessionCall)
  | putSeals (uploader : String) (seals : List SealInput)
  | putGrants (number : Nat) (uploader : String) (grants : List GrantWire)
  | accept (userId : String) (invitationRoles : List GroupRole)
      (elsewhere : Bool)
  | decline (holder userId : String)
  | leave (userId : String) (mustDissolve onlyAccepted elsewhere : Bool)
  | delete (userId : String) (listed elsewhere : Bool)
  | drive (workspaceId : String) (write : DriveWrite)
  | purge (workspaceId : String)

/-- A family whose group was written, and who went with what they had. -/
def Family.departed (family : Family) (userId : String) (gone : Bool)
    (group : Group) : Family :=
  let revoked := if gone then family.revoke userId else family
  let left := { revoked with group }
  if group.dissolved && !family.group.dissolved then
    left.retireAllAreas
  else
    left

/-- What a move answers of the family. -/
def Household.attempt (household : Household) :
    FamilyMove → Except FamilyRefusal Family
  | .read _ => .ok household.family
  | .listMembers _ => .ok household.family
  | .listAreas _ => .ok household.family
  | .listGaps _ => .ok household.family
  | .write number call =>
    match household.calls.get? number with
    | some reading => writeFamily household.family reading call
    | none => .error (.refused .stale)
  | .succeed number call =>
    match household.calls.get? number with
    | some reading => do
        let group ← refusing
          (postSuccession household.family.group reading.members call)
        .ok { household.family with group }
    | none => .error (.refused .stale)
  | .putSeals uploader seals => do
      let group ← refusing (storeSeals household.family.group uploader seals)
      .ok { household.family with group }
  | .putGrants number uploader grants =>
    match household.calls.get? number with
    | some reading =>
      refusing (Groups.putGrants household.family reading uploader grants)
    | none => .error (.refused .stale)
  | .accept userId invitationRoles elsewhere => do
      let group ← refusing (acceptInvitation household.family.group userId
        invitationRoles elsewhere)
      .ok { household.family with group }
  | .decline holder userId => do
      let group ← refusing
        (declinePending household.family.group holder userId)
      .ok { household.family with group }
  | .leave userId mustDissolve onlyAccepted elsewhere => do
      let group ← refusing (leaveGroup household.family.group userId
        mustDissolve onlyAccepted elsewhere)
      .ok (household.family.departed userId
        (household.family.group.isActive userId) group)
  | .delete userId listed elsewhere => do
      let group ← refusing
        (deleteAccount household.family.group userId listed elsewhere)
      .ok (household.family.departed userId true group)
  | .drive workspaceId write =>
    match household.family.areas.get? workspaceId with
    | some area => do
        let after ← refusing (driveWrite area write)
        .ok { household.family with
          areas := household.family.areas.set workspaceId after }
    | none => .error (.refused (.invalid "area"))
  | .purge workspaceId =>
    match household.family.areas.get? workspaceId with
    | some area =>
      if area.deleted then
        .ok { household.family with
          areas := household.family.areas.erase workspaceId
          grants := household.family.grants.keep fun row =>
            row.1 ≠ workspaceId }
      else
        .error (.refused (.invalid "area"))
    | none => .error (.refused (.invalid "area"))

/-- A call with something it reads again. -/
def Household.reads
    (household : Household)
    (number : Nat)
    (change : FamilyReading → FamilyReading) : Household :=
  { household with
    calls := household.calls.update (fun key _ => key = number) change }

/-- What a move changes of the calls under way. -/
def Household.record (household : Household) : FamilyMove → Household
  | .read number =>
    { household with
      calls := household.calls.set number
        { members :=
            { chain := storedChain household.family.group
              active := listActiveMemberIds household.family.group }
          ledger := household.family.folders.ledger
          areas := Groups.listAreas household.family
          gaps := missingGrants household.family } }
  | .listMembers number => household.reads number fun reading =>
    { reading with
      members :=
        { reading.members with
          active := listActiveMemberIds household.family.group } }
  | .listAreas number => household.reads number fun reading =>
    { reading with areas := Groups.listAreas household.family }
  | .listGaps number => household.reads number fun reading =>
    { reading with gaps := missingGrants household.family }
  | _ => household

/-- One step: what it answers of the family, where it is not refused. -/
def Household.step (household : Household) (move : FamilyMove) : Household :=
  match household.attempt move with
  | .ok family => { household.record move with family }
  | .error _ => household.record move

/-- The states after a run of steps. -/
abbrev Household.run (household : Household) (moves : List FamilyMove) :
    Household :=
  Runs.run Household.step household moves

/-- A family with nothing under way. -/
def Household.start (family : Family) : Household where
  family := family
  calls := .empty

end Groups

end HushOS
