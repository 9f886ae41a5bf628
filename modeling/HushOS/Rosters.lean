import HushOS.Primitives

namespace HushOS

open Toolkit

/-!
# Rosters

A roster is a group's member list at one version.  Its statement is the
canonical encoding of its fields, and a reader takes a statement only when it
is the encoding of what it holds: `parseRoster_eq_ok` says the two are inverse
on exactly the rosters that keep the field rules (`Roster.Valid`).

A roster read from bytes is first a `RawRoster`, whose fields are whatever the
statement held; the field checks turn it into a `Roster`.
-/

/-- The kinds of group. -/
inductive GroupKind where
  | family
  | org
  deriving DecidableEq, Repr

/-- The roles an entry may carry. -/
inductive GroupRole where
  | billing
  | data_admin
  | guardian
  | members
  | recovery
  deriving DecidableEq, Repr

/-- Whether an entry is a present member's or a former one's. -/
inductive MemberStatus where
  | active
  | left
  deriving DecidableEq, Repr

/-- The statement's format: 1, or 2 with root commitments and retirements. -/
inductive RosterFormat where
  | one
  | two
  deriving DecidableEq, Repr

/-- A kind as statements write it. -/
def GroupKind.name : GroupKind → String
  | .family => "family"
  | .org => "org"

/-- A role as statements write it. -/
def GroupRole.name : GroupRole → String
  | .billing => "billing"
  | .data_admin => "data_admin"
  | .guardian => "guardian"
  | .members => "members"
  | .recovery => "recovery"

/-- A status as statements write it. -/
def MemberStatus.name : MemberStatus → String
  | .active => "active"
  | .left => "left"

/-- A format's number. -/
def RosterFormat.number : RosterFormat → Nat
  | .one => 1
  | .two => 2

def GROUP_KINDS : List GroupKind := [.family, .org]

def STATUSES : List MemberStatus := [.active, .left]

def FAMILY_ROLES : List GroupRole := [.billing, .guardian, .members]

def ORG_ROLES : List GroupRole :=
  [.billing, .data_admin, .guardian, .members, .recovery]

/-- The roles a kind of group has. -/
def GroupKind.roles (kind : GroupKind) : List GroupRole :=
  if kind = .family then FAMILY_ROLES else ORG_ROLES

/-- One entry: a member's keys, status and roles, and when it last changed. -/
structure RosterMember where
  userId : String
  keyVersion : Nat
  encryptionPublicKey : String
  signingPublicKey : String
  mlDsaPublicKeyDigest : String
  kemPublicKeyDigest : String
  status : MemberStatus
  roles : List GroupRole
  sinceVersion : Nat
  deriving DecidableEq, Repr

/-- A row: an area's new key at a version, or its retirement. -/
structure RosterArea where
  workspaceId : String
  workspaceKeyVersion : Nat
  commitment : String
  rootCommitment : Option String := none
  retired : Bool := false
  deriving DecidableEq, Repr

/--
A group's member list at one version.  Absent areas are none and an absent
format is 1, so both have these as their defaults.
-/
structure Roster where
  groupId : String
  kind : GroupKind
  rosterVersion : Nat
  previousRosterDigest : String
  groupKeyVersion : Nat
  signerUserId : String
  members : List RosterMember
  areas : List RosterArea := []
  format : RosterFormat := .one
  deriving DecidableEq, Repr

def ROSTER_DOMAIN : String := "hushos/group/roster"

def MAX_ROSTER_AREA_ROWS : Nat := 1024

def MAX_FAMILY_AREAS : Nat := 1024

def MAX_ROSTER_MEMBERS : Nat := 10000

def KEY_ROW : String := "key"

def RETIRED_ROW : String := "retired"

/-- A row as read or given, before its field checks. -/
structure RawArea where
  workspaceId : Json.Plain
  workspaceKeyVersion : Json.Plain
  commitment : Json.Plain
  rootCommitment : Option Json.Plain
  retired : Bool

/-- An entry as read or given, before its field checks. -/
structure RawMember where
  userId : Json.Plain
  keyVersion : Json.Plain
  encryptionPublicKey : Json.Plain
  signingPublicKey : Json.Plain
  mlDsaPublicKeyDigest : Json.Plain
  kemPublicKeyDigest : Json.Plain
  status : Json.Plain
  roles : Json.Plain
  sinceVersion : Json.Plain

/-- A roster as read or given, before its field checks. -/
structure RawRoster where
  groupId : Json.Plain
  kind : Json.Plain
  rosterVersion : Json.Plain
  previousRosterDigest : Json.Plain
  groupKeyVersion : Json.Plain
  signerUserId : Json.Plain
  members : List RawMember
  areas : List RawArea
  format : RosterFormat

/-- A row's fields, as given. -/
def RosterArea.raw (area : RosterArea) : RawArea where
  workspaceId := .text area.workspaceId
  workspaceKeyVersion := .number area.workspaceKeyVersion
  commitment := .text area.commitment
  rootCommitment := area.rootCommitment.map .text
  retired := area.retired

/-- An entry's fields, as given. -/
def RosterMember.raw (member : RosterMember) : RawMember where
  userId := .text member.userId
  keyVersion := .number member.keyVersion
  encryptionPublicKey := .text member.encryptionPublicKey
  signingPublicKey := .text member.signingPublicKey
  mlDsaPublicKeyDigest := .text member.mlDsaPublicKeyDigest
  kemPublicKeyDigest := .text member.kemPublicKeyDigest
  status := .text member.status.name
  roles := .list (member.roles.map fun role => .text role.name)
  sinceVersion := .number member.sinceVersion

/-- A roster's fields, as given. -/
def Roster.raw (roster : Roster) : RawRoster where
  groupId := .text roster.groupId
  kind := .text roster.kind.name
  rosterVersion := .number roster.rosterVersion
  previousRosterDigest := .text roster.previousRosterDigest
  groupKeyVersion := .number roster.groupKeyVersion
  signerUserId := .text roster.signerUserId
  members := roster.members.map RosterMember.raw
  areas := roster.areas.map RosterArea.raw
  format := roster.format

/-- A key row's root commitment; an absent one is refused as no text is. -/
def rootPart (root : Option Json.Plain) : Except CryptoError String :=
  match root with
  | some root => digestOf root "area root commitment"
  | none => .error (invalid "area root commitment")

/-- One row, its fields checked in the source's order. -/
def areaPart (format : RosterFormat) (area : RawArea) :
    Except CryptoError RosterArea := do
  let workspaceId ← uuid area.workspaceId "workspace id"
  let workspaceKeyVersion ←
    integer area.workspaceKeyVersion "workspace key version"
  match format with
  | .one => do
      refuseIf (area.rootCommitment.isSome = true ∨ area.retired = true)
        (invalid "roster area")
      let commitment ← digestOf area.commitment "area key commitment"
      .ok { workspaceId, workspaceKeyVersion, commitment }
  | .two =>
    if area.retired then do
      refuseIf
        (area.commitment ≠ .text "" ∨ area.rootCommitment.isSome = true)
        (invalid "roster area")
      .ok { workspaceId, workspaceKeyVersion, commitment := "",
            retired := true }
    else do
      let commitment ← digestOf area.commitment "area key commitment"
      let rootCommitment ← rootPart area.rootCommitment
      .ok { workspaceId, workspaceKeyVersion, commitment,
            rootCommitment := some rootCommitment }

/-- The rows: few enough, each checked, one an area, sorted by area. -/
def areaParts (areas : List RawArea) (format : RosterFormat) :
    Except CryptoError (List RosterArea) := do
  refuseIf (MAX_ROSTER_AREA_ROWS < areas.length) (invalid "roster areas")
  let rows ← readEach (areaPart format) areas
  let _ ← ascending (rows.map RosterArea.workspaceId) "roster areas"
  .ok rows

/-- An entry's roles as a list, or refused. -/
def rolesList (roles : Json.Plain) : Except CryptoError (List Json.Plain) :=
  match roles with
  | .list roles => .ok roles
  | _ => .error (invalid "roster entry")

/-- One entry, its fields checked in the source's order. -/
def memberParts
    (kind : GroupKind)
    (rosterVersion : Nat)
    (member : RawMember) :
    Except CryptoError RosterMember := do
  let roles ← rolesList member.roles
  let roles ←
    readEach (fun role => oneOf role GroupRole.name kind.roles "roster role")
      roles
  let _ ← ascending (roles.map GroupRole.name) "roster roles"
  let sinceVersion ← integer member.sinceVersion "roster entry version"
  refuseIf (rosterVersion < sinceVersion) (invalid "roster entry version")
  let userId ← uuid member.userId "user id"
  let keyVersion ← integer member.keyVersion "key version"
  let encryptionPublicKey ←
    bytesOf member.encryptionPublicKey 32 "identity key"
  let signingPublicKey ← bytesOf member.signingPublicKey 32 "identity key"
  let mlDsaPublicKeyDigest ←
    digestOf member.mlDsaPublicKeyDigest "key digest"
  let kemPublicKeyDigest ← digestOf member.kemPublicKeyDigest "key digest"
  let status ←
    oneOf member.status MemberStatus.name STATUSES "member status"
  .ok { userId, keyVersion, encryptionPublicKey, signingPublicKey,
        mlDsaPublicKeyDigest, kemPublicKeyDigest, status, roles,
        sinceVersion }

/-- The previous roster's digest: empty at version 1, and only then. -/
def previousDigest (rosterVersion : Nat) (given : Json.Plain) :
    Except CryptoError String :=
  if rosterVersion = 1 then do
    refuseIf (given ≠ .text "") (invalid "roster digest")
    .ok ""
  else
    digestOf given "roster digest"

/-- A roster, its fields checked in the order its statement is built. -/
def checkRoster (raw : RawRoster) : Except CryptoError Roster := do
  let kind ← oneOf raw.kind GroupKind.name GROUP_KINDS "group kind"
  let rosterVersion ← integer raw.rosterVersion "roster version"
  let previousRosterDigest ←
    previousDigest rosterVersion raw.previousRosterDigest
  refuseIf (raw.members = [] ∨ MAX_ROSTER_MEMBERS < raw.members.length)
    (invalid "roster members")
  let members ← readEach (memberParts kind rosterVersion) raw.members
  let _ ← ascending (members.map RosterMember.userId) "roster members"
  let groupId ← uuid raw.groupId "group id"
  let groupKeyVersion ← integer raw.groupKeyVersion "group key version"
  let signerUserId ← uuid raw.signerUserId "user id"
  let areas ← areaParts raw.areas raw.format
  .ok { groupId, kind, rosterVersion, previousRosterDigest, groupKeyVersion,
        signerUserId, members, areas, format := raw.format }

/-- A row as its statement lists it. -/
def RosterArea.parts (format : RosterFormat) (area : RosterArea) :
    Json.Plain :=
  match format with
  | .one =>
    .list [.text area.workspaceId, .number area.workspaceKeyVersion,
      .text area.commitment]
  | .two =>
    if area.retired then
      .list [.text area.workspaceId, .number area.workspaceKeyVersion,
        .text RETIRED_ROW]
    else
      .list [.text area.workspaceId, .number area.workspaceKeyVersion,
        .text KEY_ROW, .text area.commitment,
        .text (area.rootCommitment.getD "")]

/-- An entry as its statement lists it. -/
def RosterMember.parts (member : RosterMember) : Json.Plain :=
  .list [.text member.userId, .number member.keyVersion,
    .text member.encryptionPublicKey, .text member.signingPublicKey,
    .text member.mlDsaPublicKeyDigest, .text member.kemPublicKeyDigest,
    .text member.status.name,
    .list (member.roles.map fun role => .text role.name),
    .number member.sinceVersion]

/-- A roster as its statement lists it. -/
def Roster.parts (roster : Roster) : List Json.Plain :=
  [.text ROSTER_DOMAIN, .number roster.format.number, .text roster.groupId,
    .text roster.kind.name, .number roster.rosterVersion,
    .text roster.previousRosterDigest, .number roster.groupKeyVersion,
    .text roster.signerUserId,
    .list (roster.members.map RosterMember.parts),
    .list (roster.areas.map (RosterArea.parts roster.format))]

/-- The statement a roster signs, refused outside the canonical encoding. -/
def rosterStatement (roster : Roster) : Except CryptoError Bytes := do
  let checked ← checkRoster roster.raw
  encodeStatement checked.parts

/-- A row's fields as a statement lists them, or refused by their shape. -/
def rawArea (format : RosterFormat) (row : Json.Plain) :
    Except CryptoError RawArea :=
  match format, row with
  | .one, .list [workspaceId, workspaceKeyVersion, commitment] =>
    .ok { workspaceId, workspaceKeyVersion, commitment,
          rootCommitment := none, retired := false }
  | .two, .list [workspaceId, workspaceKeyVersion, tag] =>
    if tag = .text RETIRED_ROW then
      .ok { workspaceId, workspaceKeyVersion, commitment := .text "",
            rootCommitment := none, retired := true }
    else
      .error (invalid "roster area")
  | .two,
    .list [workspaceId, workspaceKeyVersion, tag, commitment,
      rootCommitment] =>
      if tag = .text KEY_ROW then
        .ok { workspaceId, workspaceKeyVersion, commitment,
              rootCommitment := some rootCommitment, retired := false }
      else
        .error (invalid "roster area")
  | _, _ => .error (invalid "roster area")

/-- An entry's fields as a statement lists them, or refused by their shape. -/
def rawMember (entry : Json.Plain) : Except CryptoError RawMember :=
  match entry with
  | .list [userId, keyVersion, encryptionPublicKey, signingPublicKey,
      mlDsaPublicKeyDigest, kemPublicKeyDigest, status, roles,
      sinceVersion] =>
      .ok { userId, keyVersion, encryptionPublicKey, signingPublicKey,
            mlDsaPublicKeyDigest, kemPublicKeyDigest, status, roles,
            sinceVersion }
  | _ => .error (invalid "roster entry")

/-- The format a statement names, if it is one. -/
def RosterFormat.ofPart (part : Json.Plain) : Option RosterFormat :=
  if part = .number 1 then some .one
  else if part = .number 2 then some .two
  else none

/-- The rows a statement lists, or refused by their shape. -/
def rawAreas (format : RosterFormat) (areas : Json.Plain) :
    Except CryptoError (List RawArea) :=
  match areas with
  | .list rows => readEach (rawArea format) rows
  | _ => .error (invalid "roster areas")

/-- The entries a statement lists, or refused by their shape. -/
def rawMembers (members : Json.Plain) : Except CryptoError (List RawMember) :=
  match members with
  | .list entries => do
      refuseIf (MAX_ROSTER_MEMBERS < entries.length)
        (invalid "roster members")
      readEach rawMember entries
  | _ => .error (invalid "roster members")

/-- A roster's fields as a statement lists them, or refused by their shape. -/
def rawRoster (parts : List Json.Plain) : Except CryptoError RawRoster :=
  match parts with
  | [domain, format, groupId, kind, rosterVersion, previousRosterDigest,
      groupKeyVersion, signerUserId, members, areas] =>
      match RosterFormat.ofPart format with
      | none => .error (invalid "roster")
      | some format => do
          refuseIf (domain ≠ .text ROSTER_DOMAIN) (invalid "roster")
          let areas ← rawAreas format areas
          let members ← rawMembers members
          .ok { groupId, kind, rosterVersion, previousRosterDigest,
                groupKeyVersion, signerUserId, members, areas, format }
  | _ => .error (invalid "roster")

/-- The roster a statement's bytes hold, if they are its encoding. -/
def parseRoster (statement : Bytes) : Except CryptoError Roster := do
  let parts ← parseStatement statement "roster"
  let raw ← rawRoster parts
  let roster ← checkRoster raw
  let rebuilt ← encodeStatement roster.parts
  requireCanonical statement rebuilt "roster"
  .ok roster

/-- The member's entry on a roster, if any. -/
def rosterEntry (roster : Roster) (userId : String) : Option RosterMember :=
  roster.members.find? fun member => member.userId = userId

/-- Whether an entry is active. -/
def active (entry : Option RosterMember) : Bool :=
  match entry with
  | some entry => entry.status = .active
  | none => false

/-- Whether an entry is active and holds a role. -/
def activeWith (entry : Option RosterMember) (role : GroupRole) : Bool :=
  match entry with
  | some entry => entry.status = .active && entry.roles.contains role
  | none => false

theorem GroupKind.name_injective : Function.Injective GroupKind.name := by
  intro first second same
  cases first <;> cases second <;> first | rfl | exact absurd same (by decide)

theorem GroupRole.name_injective : Function.Injective GroupRole.name := by
  intro first second same
  cases first <;> cases second <;> first | rfl | exact absurd same (by decide)

theorem MemberStatus.name_injective :
    Function.Injective MemberStatus.name := by
  intro first second same
  cases first <;> cases second <;> first | rfl | exact absurd same (by decide)

@[simp] theorem mem_GROUP_KINDS (kind : GroupKind) : kind ∈ GROUP_KINDS := by
  cases kind <;> decide

@[simp] theorem mem_STATUSES (status : MemberStatus) :
    status ∈ STATUSES := by
  cases status <;> decide

/-- A row that keeps the field rules of its format. -/
structure RosterArea.Valid (format : RosterFormat) (area : RosterArea) :
    Prop where
  workspaceId : isUuid area.workspaceId = true
  version_pos : 1 ≤ area.workspaceKeyVersion
  version_le : area.workspaceKeyVersion ≤ maxSafe
  retired : area.retired = true → format = .two ∧ area.commitment = "" ∧
    area.rootCommitment = none
  commitment : area.retired = false → isDigest area.commitment = true
  root : area.retired = false → format = .two →
    ∃ root, area.rootCommitment = some root ∧ isDigest root = true
  rootless : format = .one → area.rootCommitment = none

/-- An entry that keeps the field rules of its group's kind. -/
structure RosterMember.Valid
    (kind : GroupKind)
    (rosterVersion : Nat)
    (member : RosterMember) : Prop where
  roles : ∀ role ∈ member.roles, role ∈ kind.roles
  roles_sorted : (member.roles.map GroupRole.name).Pairwise Before
  since_pos : 1 ≤ member.sinceVersion
  since_le : member.sinceVersion ≤ maxSafe
  since_le_version : member.sinceVersion ≤ rosterVersion
  userId : isUuid member.userId = true
  keyVersion_pos : 1 ≤ member.keyVersion
  keyVersion_le : member.keyVersion ≤ maxSafe
  encryptionPublicKey : isBytesOf member.encryptionPublicKey 32 = true
  signingPublicKey : isBytesOf member.signingPublicKey 32 = true
  mlDsaPublicKeyDigest : isDigest member.mlDsaPublicKeyDigest = true
  kemPublicKeyDigest : isDigest member.kemPublicKeyDigest = true

/-- A roster that keeps the field rules. -/
structure Roster.Valid (roster : Roster) : Prop where
  version_pos : 1 ≤ roster.rosterVersion
  version_le : roster.rosterVersion ≤ maxSafe
  first : roster.rosterVersion = 1 → roster.previousRosterDigest = ""
  later : roster.rosterVersion ≠ 1 →
    isDigest roster.previousRosterDigest = true
  nonempty : roster.members ≠ []
  few : roster.members.length ≤ MAX_ROSTER_MEMBERS
  members : ∀ member ∈ roster.members,
    member.Valid roster.kind roster.rosterVersion
  members_sorted : (roster.members.map RosterMember.userId).Pairwise Before
  groupId : isUuid roster.groupId = true
  keyVersion_pos : 1 ≤ roster.groupKeyVersion
  keyVersion_le : roster.groupKeyVersion ≤ maxSafe
  signerUserId : isUuid roster.signerUserId = true
  rows_few : roster.areas.length ≤ MAX_ROSTER_AREA_ROWS
  areas : ∀ area ∈ roster.areas, area.Valid roster.format
  areas_sorted : (roster.areas.map RosterArea.workspaceId).Pairwise Before

@[simp] theorem rootPart_eq_ok
    {given : Option Json.Plain}
    {root : String} :
    rootPart given = .ok root ↔
      given = some (.text root) ∧ isDigest root = true := by
  cases given <;> simp [rootPart]

@[simp] theorem rolesList_eq_ok
    {given : Json.Plain}
    {roles : List Json.Plain} :
    rolesList given = .ok roles ↔ given = .list roles := by
  cases given <;> simp [rolesList]

theorem RosterArea.raw_injective : Function.Injective RosterArea.raw := by
  intro first second same
  cases first
  cases second
  simp only [RosterArea.raw, RawArea.mk.injEq, Json.Plain.text.injEq,
    Json.Plain.number.injEq] at same
  obtain ⟨rfl, rfl, rfl, sameRoot, rfl⟩ := same
  have textInjective : Function.Injective Json.Plain.text := by
    intro first second sameText
    simpa using sameText
  rw [Option.map_injective textInjective sameRoot]

theorem RosterMember.raw_injective :
    Function.Injective RosterMember.raw := by
  intro first second same
  cases first
  cases second
  simp only [RosterMember.raw, RawMember.mk.injEq, Json.Plain.text.injEq,
    Json.Plain.number.injEq, Json.Plain.list.injEq] at same
  obtain ⟨rfl, rfl, rfl, rfl, rfl, rfl, sameStatus, sameRoles, rfl⟩ := same
  have nameInjective :
      Function.Injective fun role : GroupRole =>
        Json.Plain.text role.name := by
    intro first second sameName
    exact GroupRole.name_injective (by simpa using sameName)
  rw [MemberStatus.name_injective sameStatus,
    List.map_injective_iff.mpr nameInjective sameRoles]

/-- Rosters are told by their raw form. -/
theorem Roster.raw_injective : Function.Injective Roster.raw := by
  intro first second same
  cases first
  cases second
  simp only [Roster.raw, RawRoster.mk.injEq, Json.Plain.text.injEq,
    Json.Plain.number.injEq] at same
  obtain ⟨rfl, sameKind, rfl, rfl, rfl, rfl, sameMembers, sameAreas, rfl⟩ :=
    same
  rw [GroupKind.name_injective sameKind,
    List.map_injective_iff.mpr RosterMember.raw_injective sameMembers,
    List.map_injective_iff.mpr RosterArea.raw_injective sameAreas]

variable {format : RosterFormat} {roster : Roster}

/-- A raw row passes exactly as that of a valid area. -/
theorem areaPart_eq_ok
    {raw : RawArea}
    {area : RosterArea} :
    areaPart format raw = .ok area ↔
      raw = area.raw ∧ area.Valid format := by
  obtain ⟨givenId, givenVersion, givenCommitment, givenRoot, givenRetired⟩ :=
    raw
  obtain ⟨id, version, commitment, root, retired⟩ := area
  simp only [RosterArea.raw, RawArea.mk.injEq]
  constructor
  · intro accepted
    simp only [areaPart, bind_eq_ok, uuid_eq_ok, integer_eq_ok] at accepted
    obtain ⟨_, ⟨rfl, idShaped⟩, _, ⟨rfl, positive, safe⟩, accepted⟩ :=
      accepted
    cases format with
    | one =>
      simp only [bind_eq_ok, exists_unit, refuseIf_eq_ok, digestOf_eq_ok,
        not_or, Except.ok.injEq, RosterArea.mk.injEq] at accepted
      obtain ⟨⟨rootless, standing⟩, _, ⟨rfl, committed⟩, rfl, rfl, rfl,
        rfl, rfl⟩ := accepted
      simp only [Bool.not_eq_true, Option.isSome_eq_false_iff,
        Option.isNone_iff_eq_none] at rootless standing
      subst rootless standing
      refine ⟨⟨rfl, rfl, rfl, rfl, rfl⟩, ?_⟩
      exact {
        workspaceId := idShaped, version_pos := positive
        version_le := safe
        retired := by simp
        commitment := fun _ => committed
        root := by simp
        rootless := by simp }
    | two =>
      cases givenRetired with
      | true =>
        simp only [↓reduceIte, bind_eq_ok, exists_unit, refuseIf_eq_ok,
          not_or, not_not, Except.ok.injEq, RosterArea.mk.injEq]
          at accepted
        obtain ⟨⟨rfl, rootless⟩, rfl, rfl, rfl, rfl, rfl⟩ := accepted
        simp only [Bool.not_eq_true, Option.isSome_eq_false_iff,
          Option.isNone_iff_eq_none] at rootless
        subst rootless
        refine ⟨⟨rfl, rfl, rfl, rfl, rfl⟩, ?_⟩
        exact {
          workspaceId := idShaped, version_pos := positive
          version_le := safe
          retired := by simp
          commitment := by simp
          root := by simp
          rootless := by simp }
      | false =>
        simp only [Bool.false_eq_true, ↓reduceIte, bind_eq_ok,
          digestOf_eq_ok, rootPart_eq_ok, Except.ok.injEq,
          RosterArea.mk.injEq] at accepted
        obtain ⟨_, ⟨rfl, committed⟩, given, ⟨rfl, rooted⟩, rfl, rfl,
          rfl, rfl, rfl⟩ := accepted
        refine ⟨⟨rfl, rfl, rfl, rfl, rfl⟩, ?_⟩
        exact {
          workspaceId := idShaped, version_pos := positive
          version_le := safe
          retired := by simp
          commitment := fun _ => committed
          root := fun _ _ => ⟨given, rfl, rooted⟩
          rootless := by simp }
  · rintro ⟨⟨rfl, rfl, rfl, rfl, sameRetired⟩, valid⟩
    subst sameRetired
    have idShaped := valid.workspaceId
    have positive := valid.version_pos
    have safe := valid.version_le
    simp only [areaPart, bind_eq_ok, uuid_eq_ok, integer_eq_ok]
    refine ⟨_, ⟨rfl, idShaped⟩, _, ⟨rfl, positive, safe⟩, ?_⟩
    cases format with
    | one =>
      have rootless := valid.rootless rfl
      have standing : givenRetired = false := by
        cases givenRetired with
        | true => exact absurd (valid.retired rfl).1 (by simp)
        | false => rfl
      have committed := valid.commitment standing
      dsimp only at rootless
      subst rootless standing
      simpa [bind_eq_ok] using committed
    | two =>
      cases givenRetired with
      | true =>
        obtain ⟨_, bare, rootless⟩ := valid.retired rfl
        dsimp only at bare rootless
        subst bare rootless
        simp [bind_eq_ok]
      | false =>
        have committed := valid.commitment rfl
        obtain ⟨given, rooted, shaped⟩ := valid.root rfl rfl
        dsimp only at rooted
        subst rooted
        simp only [Bool.false_eq_true, ↓reduceIte, bind_eq_ok,
          digestOf_eq_ok, rootPart_eq_ok]
        exact ⟨_, ⟨rfl, committed⟩, _, ⟨rfl, shaped⟩, rfl⟩

/-- Raw rows pass exactly as those of valid, ascending areas. -/
theorem areaParts_eq_ok
    {raw : List RawArea}
    {areas : List RosterArea} :
    areaParts raw format = .ok areas ↔
      raw = areas.map RosterArea.raw ∧
        areas.length ≤ MAX_ROSTER_AREA_ROWS ∧
        (∀ area ∈ areas, area.Valid format) ∧
        (areas.map RosterArea.workspaceId).Pairwise Before := by
  simp only [areaParts, bind_eq_ok, exists_unit, refuseIf_eq_ok, not_lt,
    ascending_eq_ok, Except.ok.injEq]
  constructor
  · rintro ⟨few, rows, read, _, ⟨sorted, rfl⟩, rfl⟩
    obtain ⟨rfl, valid⟩ := (readEach_eq_ok_map areaPart_eq_ok).mp read
    exact ⟨rfl, by simpa using few, valid, sorted⟩
  · rintro ⟨rfl, few, valid, sorted⟩
    exact ⟨by simpa using few, areas,
      (readEach_eq_ok_map areaPart_eq_ok).mpr ⟨rfl, valid⟩,
      _, ⟨sorted, rfl⟩, rfl⟩

/-- A raw entry passes exactly as that of a valid member. -/
theorem memberParts_eq_ok
    {kind : GroupKind}
    {rosterVersion : Nat}
    {raw : RawMember}
    {member : RosterMember} :
    memberParts kind rosterVersion raw = .ok member ↔
      raw = member.raw ∧ member.Valid kind rosterVersion := by
  obtain ⟨givenId, givenVersion, givenEnc, givenSig, givenMlDsa, givenKem,
    givenStatus, givenRoles, givenSince⟩ := raw
  have readRoles :
      ∀ {given : List Json.Plain} {roles : List GroupRole},
        readEach
            (fun role =>
              oneOf role GroupRole.name kind.roles "roster role") given =
            .ok roles ↔
          given = roles.map (fun role => .text role.name) ∧
            ∀ role ∈ roles, role ∈ kind.roles :=
    fun {_ _} =>
      readEach_eq_ok_map (oneOf_eq_ok GroupRole.name_injective)
  constructor
  · intro accepted
    simp only [memberParts, bind_eq_ok, uuid_eq_ok, integer_eq_ok,
      exists_unit, refuseIf_eq_ok, not_lt, bytesOf_eq_ok, digestOf_eq_ok,
      rolesList_eq_ok, oneOf_eq_ok MemberStatus.name_injective,
      ascending_eq_ok, readRoles, Except.ok.injEq] at accepted
    obtain ⟨_, rfl, roles, ⟨rfl, allowed⟩, _, ⟨sorted, rfl⟩,
      since, ⟨rfl, sincePositive, sinceSafe⟩, sinceEarly, id,
      ⟨rfl, idShaped⟩, version, ⟨rfl, positive, safe⟩, enc,
      ⟨rfl, encShaped⟩, sig, ⟨rfl, sigShaped⟩, mlDsa, ⟨rfl, mlDsaShaped⟩,
      kem, ⟨rfl, kemShaped⟩, status, ⟨rfl, _⟩, rfl⟩ := accepted
    exact ⟨rfl, {
      roles := allowed, roles_sorted := sorted
      since_pos := sincePositive, since_le := sinceSafe
      since_le_version := sinceEarly, userId := idShaped
      keyVersion_pos := positive, keyVersion_le := safe
      encryptionPublicKey := encShaped
      signingPublicKey := sigShaped
      mlDsaPublicKeyDigest := mlDsaShaped
      kemPublicKeyDigest := kemShaped }⟩
  · rintro ⟨same, valid⟩
    simp only [RosterMember.raw, RawMember.mk.injEq] at same
    obtain ⟨rfl, rfl, rfl, rfl, rfl, rfl, rfl, rfl, rfl⟩ := same
    simp only [memberParts, bind_eq_ok, uuid_eq_ok,
      integer_eq_ok, exists_unit, refuseIf_eq_ok, not_lt, bytesOf_eq_ok,
      digestOf_eq_ok, rolesList_eq_ok,
      oneOf_eq_ok MemberStatus.name_injective, ascending_eq_ok, readRoles,
      Except.ok.injEq]
    exact ⟨_, rfl, member.roles, ⟨rfl, valid.roles⟩, _,
      ⟨valid.roles_sorted, rfl⟩, _,
      ⟨rfl, valid.since_pos, valid.since_le⟩, valid.since_le_version, _,
      ⟨rfl, valid.userId⟩, _,
      ⟨rfl, valid.keyVersion_pos, valid.keyVersion_le⟩, _,
      ⟨rfl, valid.encryptionPublicKey⟩, _, ⟨rfl, valid.signingPublicKey⟩, _,
      ⟨rfl, valid.mlDsaPublicKeyDigest⟩, _,
      ⟨rfl, valid.kemPublicKeyDigest⟩, _, ⟨rfl, by simp⟩, rfl⟩

theorem previousDigest_eq_ok
    {rosterVersion : Nat}
    {given : Json.Plain}
    {digest : String} :
    previousDigest rosterVersion given = .ok digest ↔
      given = .text digest ∧
        (rosterVersion = 1 → digest = "") ∧
        (rosterVersion ≠ 1 → isDigest digest = true) := by
  by_cases first : rosterVersion = 1
  · simp only [previousDigest, first, ↓reduceIte, bind_eq_ok, exists_unit,
      refuseIf_eq_ok, not_not, Except.ok.injEq, true_implies, ne_eq,
      not_true_eq_false, false_implies, and_true]
    constructor
    · rintro ⟨rfl, rfl⟩
      exact ⟨rfl, rfl⟩
    · rintro ⟨rfl, rfl⟩
      exact ⟨rfl, rfl⟩
  · simp [previousDigest, first]

/-- A raw roster passes exactly as that of a valid one. -/
theorem checkRoster_eq_ok
    {raw : RawRoster}
    {roster : Roster} :
    checkRoster raw = .ok roster ↔ raw = roster.raw ∧ roster.Valid := by
  obtain ⟨givenId, givenKind, givenVersion, givenPrevious, givenKey,
    givenSigner, givenMembers, givenAreas, givenFormat⟩ := raw
  constructor
  · intro accepted
    simp only [checkRoster, bind_eq_ok, uuid_eq_ok, integer_eq_ok,
      exists_unit, refuseIf_eq_ok, not_or, not_lt, ascending_eq_ok,
      oneOf_eq_ok GroupKind.name_injective, previousDigest_eq_ok,
      readEach_eq_ok_map memberParts_eq_ok, areaParts_eq_ok,
      Except.ok.injEq] at accepted
    obtain ⟨kind, ⟨rfl, _⟩, version, ⟨rfl, positive, safe⟩, previous,
      ⟨rfl, first, later⟩, ⟨nonempty, few⟩, members,
      ⟨rfl, membersValid⟩, _, ⟨sorted, rfl⟩, id, ⟨rfl, idShaped⟩, key,
      ⟨rfl, keyPositive, keySafe⟩, signer, ⟨rfl, signerShaped⟩, areas,
      ⟨rfl, rowsFew, rowsValid, rowsSorted⟩, rfl⟩ := accepted
    exact ⟨rfl, {
      version_pos := positive, version_le := safe, first := first
      later := later, nonempty := by simpa using nonempty
      few := by simpa using few, members := membersValid
      members_sorted := sorted, groupId := idShaped
      keyVersion_pos := keyPositive, keyVersion_le := keySafe
      signerUserId := signerShaped, rows_few := rowsFew
      areas := rowsValid, areas_sorted := rowsSorted }⟩
  · rintro ⟨same, valid⟩
    simp only [Roster.raw, RawRoster.mk.injEq] at same
    obtain ⟨rfl, rfl, rfl, rfl, rfl, rfl, rfl, rfl, rfl⟩ := same
    simp only [checkRoster, bind_eq_ok, uuid_eq_ok,
      integer_eq_ok, exists_unit, refuseIf_eq_ok, not_or, not_lt,
      ascending_eq_ok, oneOf_eq_ok GroupKind.name_injective,
      previousDigest_eq_ok, readEach_eq_ok_map memberParts_eq_ok,
      areaParts_eq_ok, Except.ok.injEq]
    exact ⟨_, ⟨rfl, by simp⟩, _,
      ⟨rfl, valid.version_pos, valid.version_le⟩, _,
      ⟨rfl, valid.first, valid.later⟩,
      ⟨by simpa using valid.nonempty, by simpa using valid.few⟩, _,
      ⟨rfl, valid.members⟩, _, ⟨valid.members_sorted, rfl⟩, _,
      ⟨rfl, valid.groupId⟩, _,
      ⟨rfl, valid.keyVersion_pos, valid.keyVersion_le⟩, _,
      ⟨rfl, valid.signerUserId⟩, _,
      ⟨rfl, valid.rows_few, valid.areas, valid.areas_sorted⟩, rfl⟩

/-- A valid area's parts are read back as its raw row. -/
theorem rawArea_parts
    {area : RosterArea}
    (valid : area.Valid format) :
    rawArea format (area.parts format) = .ok area.raw := by
  obtain ⟨id, version, commitment, root, retired⟩ := area
  cases format with
  | one =>
    have rootless := valid.rootless rfl
    have standing : retired = false := by
      cases retired with
      | true => exact absurd (valid.retired rfl).1 (by simp)
      | false => rfl
    dsimp only at rootless
    subst rootless standing
    rfl
  | two =>
    cases retired with
    | true =>
      obtain ⟨_, bare, rootless⟩ := valid.retired rfl
      dsimp only at bare rootless
      subst bare rootless
      simp [rawArea, RosterArea.parts, RosterArea.raw]
    | false =>
      obtain ⟨given, rooted, _⟩ := valid.root rfl rfl
      dsimp only at rooted
      subst rooted
      simp [rawArea, RosterArea.parts, RosterArea.raw]

theorem rawMember_parts (member : RosterMember) :
    rawMember member.parts = .ok member.raw :=
  rfl

@[simp] theorem RosterFormat.ofPart_number (format : RosterFormat) :
    RosterFormat.ofPart (.number format.number) = some format := by
  cases format <;> simp [RosterFormat.ofPart, RosterFormat.number]

/-- A valid roster's parts are read back as its raw form. -/
theorem rawRoster_parts
    (valid : roster.Valid) :
    rawRoster roster.parts = .ok roster.raw := by
  have rows :
      rawAreas roster.format
          (.list (roster.areas.map (RosterArea.parts roster.format))) =
        .ok (roster.areas.map RosterArea.raw) := by
    simp only [rawAreas]
    rw [readEach_map]
    exact readEach_eq_map fun area member =>
      rawArea_parts (valid.areas area member)
  have entries :
      rawMembers (.list (roster.members.map RosterMember.parts)) =
        .ok (roster.members.map RosterMember.raw) := by
    have few : ¬ MAX_ROSTER_MEMBERS < roster.members.length :=
      Nat.not_lt.mpr valid.few
    simp only [rawMembers, List.length_map, refuseIf, few, ↓reduceIte,
      ok_bind]
    rw [readEach_map]
    exact readEach_eq_map fun member _ => rawMember_parts member
  simp [rawRoster, Roster.parts, refuseIf, rows, entries, Roster.raw]

theorem rosterStatement_eq_ok
    {statement : Bytes} :
    rosterStatement roster = .ok statement ↔
      roster.Valid ∧ encodeStatement roster.parts = .ok statement := by
  simp only [rosterStatement, bind_eq_ok, checkRoster_eq_ok]
  constructor
  · rintro ⟨checked, ⟨same, valid⟩, encoded⟩
    obtain rfl := Roster.raw_injective same
    exact ⟨valid, encoded⟩
  · rintro ⟨valid, encoded⟩
    exact ⟨roster, ⟨rfl, valid⟩, encoded⟩

/-- Parsing reads exactly the statement of a roster. -/
theorem parseRoster_eq_ok
    {statement : Bytes} :
    parseRoster statement = .ok roster ↔
      rosterStatement roster = .ok statement := by
  simp only [parseRoster, bind_eq_ok, parseStatement_eq_ok,
    checkRoster_eq_ok, requireCanonical, exists_unit, refuseIf_eq_ok,
    not_not, Except.ok.injEq, rosterStatement_eq_ok]
  constructor
  · rintro ⟨parts, _, raw, _, read, ⟨_, valid⟩, rebuilt, encoded, rfl, rfl⟩
    exact ⟨valid, encoded⟩
  · rintro ⟨valid, encoded⟩
    exact ⟨roster.parts, encoded, roster.raw, rawRoster_parts valid, roster,
      ⟨rfl, valid⟩, statement, encoded, rfl, rfl⟩

end HushOS
