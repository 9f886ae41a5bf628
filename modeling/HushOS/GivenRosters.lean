import HushOS.GroupSuccessions
import HushOS.Rosters

namespace HushOS

open Toolkit List

/-!
# Rosters as a client gives them

A client may leave out a roster's areas and format, a row's root commitment
and its retirement mark; the parser gives the areas always, the format when it
is 2 and the mark when a row retires.  `statements_roundTrip` is what holds of
statements and fields together: each is known from the other.
-/

/-- A row as a client gives it; what it leaves out is absent. -/
structure GivenArea where
  workspaceId : String
  workspaceKeyVersion : Nat
  commitment : String
  rootCommitment : Option String := none
  retired : Option Bool := none
  deriving DecidableEq, Repr

/-- A roster as a client gives it; what it leaves out is absent. -/
structure GivenRoster where
  groupId : String
  kind : GroupKind
  rosterVersion : Nat
  previousRosterDigest : String
  groupKeyVersion : Nat
  signerUserId : String
  members : List RosterMember
  areas : Option (List GivenArea) := none
  format : Option Nat := none
  deriving DecidableEq, Repr

/-- A row with its retirement mark made explicit. -/
def GivenArea.explicit (area : GivenArea) : RosterArea where
  workspaceId := area.workspaceId
  workspaceKeyVersion := area.workspaceKeyVersion
  commitment := area.commitment
  rootCommitment := area.rootCommitment
  retired := area.retired.getD false

/-- A roster with its areas and format made explicit. -/
def GivenRoster.explicit (given : GivenRoster) : Roster where
  groupId := given.groupId
  kind := given.kind
  rosterVersion := given.rosterVersion
  previousRosterDigest := given.previousRosterDigest
  groupKeyVersion := given.groupKeyVersion
  signerUserId := given.signerUserId
  members := given.members
  areas := (given.areas.getD []).map GivenArea.explicit
  format := if given.format = some 2 then .two else .one

/-- A row as the parser gives it: the mark on retirement rows only. -/
def RosterArea.given (area : RosterArea) : GivenArea where
  workspaceId := area.workspaceId
  workspaceKeyVersion := area.workspaceKeyVersion
  commitment := area.commitment
  rootCommitment := area.rootCommitment
  retired := if area.retired then some true else none

/-- A roster as the parser gives it: areas always, the format when it is 2. -/
def Roster.given (roster : Roster) : GivenRoster where
  groupId := roster.groupId
  kind := roster.kind
  rosterVersion := roster.rosterVersion
  previousRosterDigest := roster.previousRosterDigest
  groupKeyVersion := roster.groupKeyVersion
  signerUserId := roster.signerUserId
  members := roster.members
  areas := some (roster.areas.map RosterArea.given)
  format := if roster.format = .two then some 2 else none

/-- A roster's format: 1 when absent, else 1 or 2. -/
def rosterFormat (format : Option Nat) : Except CryptoError RosterFormat :=
  match format with
  | none => .ok .one
  | some 1 => .ok .one
  | some 2 => .ok .two
  | some _ => .error (invalid "roster format")

/-- One given row: a mark that is there must be `true`. -/
def givenAreaPart (format : RosterFormat) (area : GivenArea) :
    Except CryptoError RosterArea := do
  let _ ← uuid (.text area.workspaceId) "workspace id"
  let _ ← integer (.number area.workspaceKeyVersion) "workspace key version"
  refuseIf (area.retired = some false) (invalid "roster area")
  areaPart format area.explicit.raw

/-- The given rows: few enough, each checked, one an area, sorted by area. -/
def givenAreaParts (areas : Option (List GivenArea)) (format : RosterFormat) :
    Except CryptoError (List RosterArea) := do
  let list := areas.getD []
  refuseIf (MAX_ROSTER_AREA_ROWS < list.length) (invalid "roster areas")
  let rows ← readEach (givenAreaPart format) list
  let _ ← ascending (rows.map RosterArea.workspaceId) "roster areas"
  .ok rows

/-- The statement a given roster signs, its rows the last of its fields. -/
def givenStatement (given : GivenRoster) : Except CryptoError Bytes := do
  let format ← rosterFormat given.format
  let head ← checkRoster { given.explicit.raw with areas := [], format }
  let areas ← givenAreaParts given.areas format
  encodeStatement { head with areas }.parts

theorem rosterFormat_eq_ok
    {given : Option Nat}
    {format : RosterFormat} :
    rosterFormat given = .ok format ↔
      (given = none ∨ given = some 1 ∨ given = some 2) ∧
        format = if given = some 2 then .two else .one := by
  unfold rosterFormat
  split
  · simp [eq_comm]
  · simp [eq_comm]
  · simp [eq_comm]
  · next number notOne notTwo =>
      have isNotOne : number ≠ 1 := fun same => notOne (by rw [same])
      have isNotTwo : number ≠ 2 := fun same => notTwo (by rw [same])
      simp [isNotOne, isNotTwo]

theorem givenAreaPart_eq_ok
    {format : RosterFormat}
    {given : GivenArea}
    {area : RosterArea} :
    givenAreaPart format given = .ok area ↔
      given.retired ≠ some false ∧ area = given.explicit ∧
        area.Valid format := by
  have rawInjective := RosterArea.raw_injective
  simp only [givenAreaPart, bind_eq_ok, uuid_eq_ok, integer_eq_ok,
    exists_unit, refuseIf_eq_ok, areaPart_eq_ok, Json.Plain.text.injEq,
    Json.Plain.number.injEq]
  constructor
  · rintro ⟨_, _, _, _, marked, same, valid⟩
    exact ⟨marked, (rawInjective same).symm, valid⟩
  · rintro ⟨marked, rfl, valid⟩
    exact ⟨_, ⟨rfl, valid.workspaceId⟩, _,
      ⟨rfl, valid.version_pos, valid.version_le⟩, marked, rfl, valid⟩

/-- Given area rows pass exactly when made explicit they are valid. -/
theorem givenAreaParts_eq_ok
    {format : RosterFormat}
    {given : Option (List GivenArea)}
    {areas : List RosterArea} :
    givenAreaParts given format = .ok areas ↔
      (∀ area ∈ given.getD [], area.retired ≠ some false) ∧
        areas = (given.getD []).map GivenArea.explicit ∧
        areas.length ≤ MAX_ROSTER_AREA_ROWS ∧
        (∀ area ∈ areas, area.Valid format) ∧
        (areas.map RosterArea.workspaceId).Pairwise Before := by
  have reads {list : List GivenArea} {rows : List RosterArea} :
      readEach (givenAreaPart format) list = .ok rows ↔
        (∀ area ∈ list, area.retired ≠ some false) ∧
          rows = list.map GivenArea.explicit ∧
          ∀ area ∈ rows, area.Valid format := by
    rw [readEach_eq_ok]
    constructor
    · intro each
      induction each with
      | nil =>
        simp
      | cons head _ inductionHypothesis =>
        obtain ⟨marked, rfl, valid⟩ := givenAreaPart_eq_ok.mp head
        obtain ⟨restMarked, restIs, restValid⟩ := inductionHypothesis
        exact ⟨by simpa using ⟨marked, restMarked⟩, by rw [restIs]; rfl,
          by simpa using ⟨valid, restValid⟩⟩
    · rintro ⟨marked, rfl, valid⟩
      rw [List.forall₂_map_right_iff, List.forall₂_same]
      intro area member
      exact givenAreaPart_eq_ok.mpr ⟨marked area member, rfl,
        valid _ (mem_map_of_mem member)⟩
  simp only [givenAreaParts, bind_eq_ok, exists_unit, refuseIf_eq_ok, reads,
    ascending_eq_ok, Except.ok.injEq, Nat.not_lt]
  constructor
  · rintro ⟨few, rows, ⟨marked, rfl, valid⟩, _, ⟨sorted, rfl⟩, rfl⟩
    exact ⟨marked, rfl, by rwa [length_map], valid, sorted⟩
  · rintro ⟨marked, rfl, few, valid, sorted⟩
    rw [length_map] at few
    exact ⟨few, _, ⟨marked, rfl, valid⟩, _, ⟨sorted, rfl⟩, rfl⟩

/-- A given roster that may have a statement: what it leaves out may be. -/
structure GivenRoster.Typed (given : GivenRoster) : Prop where
  format : given.format = none ∨ given.format = some 1 ∨
    given.format = some 2
  marks : ∀ area ∈ given.areas.getD [], area.retired ≠ some false

/-- A roster is valid when it is so without rows and the rows are. -/
theorem Roster.Valid.iff_rows (roster : Roster) :
    roster.Valid ↔
      ({ roster with areas := [] } : Roster).Valid ∧
        roster.areas.length ≤ MAX_ROSTER_AREA_ROWS ∧
        (∀ area ∈ roster.areas, area.Valid roster.format) ∧
        (roster.areas.map RosterArea.workspaceId).Pairwise Before := by
  constructor
  · intro valid
    exact ⟨⟨valid.version_pos, valid.version_le, valid.first, valid.later,
      valid.nonempty, valid.few, valid.members, valid.members_sorted,
      valid.groupId, valid.keyVersion_pos, valid.keyVersion_le,
      valid.signerUserId, Nat.zero_le _, by simp, by simp⟩,
      valid.rows_few, valid.areas, valid.areas_sorted⟩
  · rintro ⟨head, few, rows, sorted⟩
    exact ⟨head.version_pos, head.version_le, head.first, head.later,
      head.nonempty, head.few, head.members, head.members_sorted,
      head.groupId, head.keyVersion_pos, head.keyVersion_le,
      head.signerUserId, few, rows, sorted⟩

/-- A given roster is stated exactly as its explicit form. -/
theorem givenStatement_eq_ok
    {given : GivenRoster}
    {statement : Bytes} :
    givenStatement given = .ok statement ↔
      given.Typed ∧ rosterStatement given.explicit = .ok statement := by
  have headRaw (format : RosterFormat)
      (isFormat : format = if given.format = some 2 then .two else .one) :
      ({ given.explicit.raw with areas := [], format } : RawRoster) =
        ({ given.explicit with areas := [] } : Roster).raw := by
    subst isFormat
    rfl
  simp only [givenStatement, bind_eq_ok, rosterFormat_eq_ok,
    checkRoster_eq_ok, givenAreaParts_eq_ok, rosterStatement_eq_ok]
  constructor
  · rintro ⟨format, ⟨typed, isFormat⟩, head, ⟨sameRaw, headValid⟩, areas,
      ⟨marked, isAreas, few, rows, sorted⟩, encoded⟩
    rw [headRaw format isFormat] at sameRaw
    obtain rfl := Roster.raw_injective sameRaw
    subst isAreas isFormat
    exact ⟨⟨typed, marked⟩,
      (Roster.Valid.iff_rows _).mpr ⟨headValid, few, rows, sorted⟩, encoded⟩
  · rintro ⟨typed, valid, encoded⟩
    obtain ⟨headValid, few, rows, sorted⟩ :=
      (Roster.Valid.iff_rows _).mp valid
    exact ⟨_, ⟨typed.format, rfl⟩, _, ⟨headRaw _ rfl, headValid⟩, _,
      ⟨typed.marks, rfl, few, rows, sorted⟩, encoded⟩

theorem Roster.explicit_given (roster : Roster) :
    roster.given.explicit = roster := by
  have rows : (roster.areas.map RosterArea.given).map GivenArea.explicit =
      roster.areas := by
    rw [map_map]
    conv_rhs => rw [← map_id roster.areas]
    refine map_congr_left ?_
    rintro ⟨_, _, _, _, retired⟩ _
    cases retired <;> rfl
  obtain ⟨_, _, _, _, _, _, _, areas, format⟩ := roster
  simp only [Roster.given, GivenRoster.explicit, Option.getD_some] at rows ⊢
  rw [rows]
  cases format <;> rfl

theorem Roster.typed_given (roster : Roster) : roster.given.Typed where
  format := by
    cases format : roster.format <;> simp [Roster.given, format]
  marks := by
    intro area member
    simp only [Roster.given, Option.getD_some, mem_map] at member
    obtain ⟨row, _, rfl⟩ := member
    cases retired : row.retired <;> simp [RosterArea.given, retired]

/--
Rosters and successions are known from their statements: what is written reads
back with what was left out made explicit, what is read is written back to the
bytes it was read from, and everything read keeps the field rules.
-/
theorem statements_roundTrip :
    (∀ (given : GivenRoster) (statement : Bytes),
      givenStatement given = .ok statement →
        (parseRoster statement).map Roster.given =
          .ok given.explicit.given) ∧
    (∀ (statement : Bytes) (roster : Roster),
      parseRoster statement = .ok roster →
        givenStatement roster.given = .ok statement ∧
          rosterStatement roster = .ok statement ∧ roster.Valid) ∧
    (∀ (succession : GroupKeySuccession) (statement : Bytes),
      groupSuccessionStatement succession = .ok statement →
        parseGroupSuccession statement = .ok succession) ∧
    (∀ (statement : Bytes) (succession : GroupKeySuccession),
      parseGroupSuccession statement = .ok succession →
        groupSuccessionStatement succession = .ok statement ∧
          succession.Valid) := by
  refine ⟨?_, ?_, ?_, ?_⟩
  · intro given statement written
    obtain ⟨_, explicit⟩ := givenStatement_eq_ok.mp written
    rw [parseRoster_eq_ok.mpr explicit]
    rfl
  · intro statement roster read
    have written := parseRoster_eq_ok.mp read
    refine ⟨givenStatement_eq_ok.mpr ⟨roster.typed_given, ?_⟩, written,
      (rosterStatement_eq_ok.mp written).1⟩
    rw [roster.explicit_given]
    exact written
  · intro succession statement written
    exact parseGroupSuccession_eq_ok.mpr written
  · intro statement succession read
    have written := parseGroupSuccession_eq_ok.mp read
    exact ⟨written, (groupSuccessionStatement_eq_ok.mp written).1⟩

end HushOS
