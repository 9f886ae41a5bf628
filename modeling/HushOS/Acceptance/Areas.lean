import HushOS.Acceptance.Entries

namespace HushOS

open Toolkit List

/-!
# The area rules

A chain's rosters list each area's keys row by row.  The ledger is what the
rows listed so far; `checkAreas` holds the next roster's rows to it and
`foldAreas` adds them.  `AreasFollow` says what the check accepts, and
`ledgerOf` is the ledger any list of rows leaves.
-/

/-- What a chain has listed of its areas so far. -/
@[ext] structure AreaLedger where
  keys : OrderedMap String (List String)
  roots : OrderedMap String (List (Option String))
  retired : Finset String
  commitments : Finset String
  rootCommitments : Finset String
  deriving DecidableEq

/-- The ledger of no rows. -/
def AreaLedger.empty : AreaLedger where
  keys := .empty
  roots := .empty
  retired := ∅
  commitments := ∅
  rootCommitments := ∅

def NOT_ROTATED : CryptoError :=
  ⟨"A roster that removes a family member rotates every area."⟩

def ADMITS_ON_REMOVAL : CryptoError :=
  ⟨"No one is admitted on the roster that removes a key holder."⟩

def TOO_MANY_AREAS : CryptoError :=
  ⟨"A family has at most 1,024 areas."⟩

def REUSED_KEY : CryptoError :=
  ⟨"This area key was used before: a rotation needs a new one."⟩

def REUSED_ROOT : CryptoError :=
  ⟨"This folder key was used before: a rotation needs a new one."⟩

def DOWNGRADE : CryptoError :=
  ⟨"This member list is in an older format than the one before it."⟩

def NOT_FOLLOWING_AREAS : CryptoError :=
  ⟨"This member list does not follow from the one before."⟩

def RETIRED : CryptoError :=
  ⟨"This family folder was deleted: it cannot be used again."⟩

/-- One row's place: a live area's next version, and a retired one's never. -/
def checkRow (ledger : AreaLedger) (row : RosterArea) :
    Except CryptoError Unit := do
  refuseIf (row.workspaceId ∈ ledger.retired) RETIRED
  let versions := (ledger.keys.listAt row.workspaceId).length
  refuseIf
    (row.workspaceKeyVersion ≠ versions + 1 ∨
      (row.retired = true ∧ versions = 0))
    NOT_FOLLOWING_AREAS

/-- The commitments a roster's own rows listed so far. -/
structure FreshCommitments where
  keys : Finset String
  roots : Finset String

/-- One row's commitments, listed never before and not twice here. -/
def checkFresh
    (ledger : AreaLedger)
    (fresh : FreshCommitments)
    (row : RosterArea) :
    Except CryptoError FreshCommitments :=
  if row.retired then
    .ok fresh
  else do
    refuseIf
      (row.commitment ∈ ledger.commitments ∨ row.commitment ∈ fresh.keys)
      REUSED_KEY
    let listed := { fresh with keys := insert row.commitment fresh.keys }
    match row.rootCommitment with
    | none => .ok listed
    | some root => do
        refuseIf (root ∈ ledger.rootCommitments ∨ root ∈ listed.roots)
          REUSED_ROOT
        .ok { listed with roots := insert root listed.roots }

/-- Whether a roster marks someone left who was active on the one before. -/
def leaving (previous next : Roster) : Bool :=
  next.members.any fun entry =>
    entry.status = .left && active (rosterEntry previous entry.userId)

/-- Whether a roster makes someone active who was not on the one before. -/
def admits (previous next : Roster) : Bool :=
  next.members.any fun entry =>
    entry.status = .active && !active (rosterEntry previous entry.userId)

/-- The live areas after a roster's rows, as the source counts them. -/
def liveCount (ledger : AreaLedger) (rows : List RosterArea) : Int :=
  let created :=
    (rows.filter fun row => !ledger.keys.has row.workspaceId).length
  let retiring := (rows.filter fun row => row.retired).length
  (ledger.keys.size : Int) - ledger.retired.card + created - retiring

/-- A family's removal rotates every live area; one it retires counts. -/
def checkRotated
    (ledger : AreaLedger)
    (previous next : Roster) :
    Except CryptoError Unit :=
  if next.kind = .family ∧ leaving previous next = true then
    forEach
      (fun workspaceId =>
        refuseIf
          (workspaceId ∉ ledger.retired ∧
            workspaceId ∉ next.areas.map RosterArea.workspaceId)
          NOT_ROTATED)
      ledger.keys.keys
  else
    .ok ()

/-- What a roster's rows and a removal must keep, after `previous` if any. -/
def checkAreas
    (ledger : AreaLedger)
    (previous : Option Roster)
    (next : Roster) :
    Except CryptoError Unit := do
  match previous with
  | some previous =>
    refuseIf (next.format.number < previous.format.number) DOWNGRADE
  | none => .ok ()
  forEach (checkRow ledger) next.areas
  let _ ← foldEach (checkFresh ledger) ⟨∅, ∅⟩ next.areas
  refuseIf
    (next.kind = .family ∧ (MAX_FAMILY_AREAS : Int) < liveCount ledger next.areas)
    TOO_MANY_AREAS
  match previous with
  | none => .ok ()
  | some previous => do
      checkRotated ledger previous next
      refuseIf (admits previous next = true ∧ dropsHolder previous next = true)
        ADMITS_ON_REMOVAL

/-- One row added to the ledger. -/
def foldArea (ledger : AreaLedger) (row : RosterArea) : AreaLedger :=
  if row.retired then
    { ledger with retired := insert row.workspaceId ledger.retired }
  else
    { ledger with
      keys := ledger.keys.push row.workspaceId row.commitment
      roots := ledger.roots.push row.workspaceId row.rootCommitment
      commitments := insert row.commitment ledger.commitments
      rootCommitments :=
        match row.rootCommitment with
        | none => ledger.rootCommitments
        | some root => insert root ledger.rootCommitments }

/-- A held roster's rows added to the ledger. -/
def foldAreas (ledger : AreaLedger) (roster : Roster) : AreaLedger :=
  roster.areas.foldl foldArea ledger

/-- The rows of an area's keys, retirements aside. -/
def keyRows (rows : List RosterArea) : List RosterArea :=
  rows.filter fun row => !row.retired

/-- A row in its place after what a ledger listed. -/
structure RowFollows (ledger : AreaLedger) (row : RosterArea) : Prop where
  live : row.workspaceId ∉ ledger.retired
  version :
    row.workspaceKeyVersion = (ledger.keys.listAt row.workspaceId).length + 1
  known : row.retired = true → ledger.keys.listAt row.workspaceId ≠ []

/-- A roster's rows and removals in their place after what a ledger listed. -/
structure AreasFollow
    (ledger : AreaLedger)
    (previous : Option Roster)
    (next : Roster) : Prop where
  format : ∀ before ∈ previous, before.format.number ≤ next.format.number
  rows : ∀ row ∈ next.areas, RowFollows ledger row
  fresh : ∀ row ∈ keyRows next.areas, row.commitment ∉ ledger.commitments
  distinct : ((keyRows next.areas).map RosterArea.commitment).Nodup
  freshRoots : ∀ row ∈ keyRows next.areas,
    ∀ root ∈ row.rootCommitment, root ∉ ledger.rootCommitments
  distinctRoots :
    ((keyRows next.areas).filterMap RosterArea.rootCommitment).Nodup
  few : next.kind = .family →
    liveCount ledger next.areas ≤ (MAX_FAMILY_AREAS : Int)
  rotated : ∀ before ∈ previous, next.kind = .family →
    leaving before next = true → ∀ workspaceId ∈ ledger.keys.keys,
      workspaceId ∉ ledger.retired →
        ∃ row ∈ next.areas, row.workspaceId = workspaceId
  admitsNone : ∀ before ∈ previous, admits before next = true →
    dropsHolder before next = false

variable {ledger : AreaLedger}

theorem checkRow_eq_ok
    {row : RosterArea} :
    checkRow ledger row = .ok () ↔ RowFollows ledger row := by
  simp only [checkRow, bind_eq_ok, exists_unit, refuseIf_eq_ok, not_or,
    not_and, ne_eq, not_not, length_eq_zero_iff]
  constructor
  · rintro ⟨live, version, known⟩
    exact ⟨live, version, known⟩
  · rintro ⟨live, version, known⟩
    exact ⟨live, version, known⟩

/-- Rows pass the fresh check exactly when no commitment comes twice. -/
theorem foldEach_checkFresh_isOk
    (rows : List RosterArea)
    (fresh : FreshCommitments) :
    (∃ listed, foldEach (checkFresh ledger) fresh rows = .ok listed) ↔
      ((∀ row ∈ keyRows rows,
          row.commitment ∉ ledger.commitments ∧
            row.commitment ∉ fresh.keys) ∧
        ((keyRows rows).map RosterArea.commitment).Nodup) ∧
      (∀ row ∈ keyRows rows, ∀ root ∈ row.rootCommitment,
          root ∉ ledger.rootCommitments ∧ root ∉ fresh.roots) ∧
        ((keyRows rows).filterMap RosterArea.rootCommitment).Nodup := by
  induction rows generalizing fresh with
  | nil =>
    simp [foldEach, keyRows]
  | cons row rest inductionHypothesis =>
    by_cases retired : row.retired = true
    · have skipped : keyRows (row :: rest) = keyRows rest := by
        simp [keyRows, retired]
      rw [skipped, ← inductionHypothesis fresh]
      simp [foldEach, checkFresh, retired]
    · have kept : keyRows (row :: rest) = row :: keyRows rest := by
        simp [keyRows, retired]
      rw [kept]
      have step :
          (∃ listed,
              foldEach (checkFresh ledger) fresh (row :: rest) =
                .ok listed) ↔
            (row.commitment ∉ ledger.commitments ∧
              row.commitment ∉ fresh.keys) ∧
            (∀ root ∈ row.rootCommitment,
              root ∉ ledger.rootCommitments ∧ root ∉ fresh.roots) ∧
            ∃ listed,
              foldEach (checkFresh ledger)
                  ⟨insert row.commitment fresh.keys,
                    row.rootCommitment.toFinset ∪ fresh.roots⟩ rest =
                .ok listed := by
        cases rooted : row.rootCommitment with
        | none =>
          simp [foldEach, checkFresh, retired, rooted, bind_eq_ok]
        | some root =>
          simp only [foldEach, checkFresh, retired, Bool.false_eq_true,
            ↓reduceIte, rooted, bind_eq_ok, exists_unit, refuseIf_eq_ok,
            not_or, Except.ok.injEq, Option.mem_def, Option.some.injEq,
            forall_eq', Option.toFinset_some,
            Finset.singleton_union]
          constructor
          · rintro ⟨listed, _, ⟨new, newRoot, rfl⟩, later⟩
            exact ⟨new, newRoot, listed, later⟩
          · rintro ⟨new, newRoot, listed, later⟩
            exact ⟨listed, _, ⟨new, newRoot, rfl⟩, later⟩
      rw [step, inductionHypothesis]
      have commitmentsSplit :
          (row.commitment ∉ ledger.commitments ∧
              row.commitment ∉ fresh.keys) ∧
            (∀ later ∈ keyRows rest,
              later.commitment ∉ ledger.commitments ∧
                later.commitment ∉ insert row.commitment fresh.keys) ∧
            ((keyRows rest).map RosterArea.commitment).Nodup ↔
          (∀ later ∈ row :: keyRows rest,
              later.commitment ∉ ledger.commitments ∧
                later.commitment ∉ fresh.keys) ∧
            ((row :: keyRows rest).map RosterArea.commitment).Nodup := by
        simp only [mem_cons, forall_eq_or_imp, Finset.mem_insert,
          map_cons, nodup_cons, mem_map, not_or]
        grind
      have rootsSplit :
          (∀ root ∈ row.rootCommitment,
              root ∉ ledger.rootCommitments ∧ root ∉ fresh.roots) ∧
            (∀ later ∈ keyRows rest, ∀ root ∈ later.rootCommitment,
              root ∉ ledger.rootCommitments ∧
                root ∉ row.rootCommitment.toFinset ∪ fresh.roots) ∧
            ((keyRows rest).filterMap
              RosterArea.rootCommitment).Nodup ↔
          (∀ later ∈ row :: keyRows rest, ∀ root ∈ later.rootCommitment,
              root ∉ ledger.rootCommitments ∧ root ∉ fresh.roots) ∧
            ((row :: keyRows rest).filterMap
              RosterArea.rootCommitment).Nodup := by
        simp only [mem_cons, forall_eq_or_imp, Finset.mem_union,
          Option.mem_toFinset, filterMap_cons, not_or]
        cases row.rootCommitment with
        | none =>
          simp
        | some root =>
          simp only [nodup_cons, mem_filterMap,
            Option.mem_def, Option.some.injEq, forall_eq']
          grind
      rw [← commitmentsSplit, ← rootsSplit]
      tauto

theorem checkRotated_eq_ok
    {previous next : Roster} :
    checkRotated ledger previous next = .ok () ↔
      (next.kind = .family → leaving previous next = true →
        ∀ workspaceId ∈ ledger.keys.keys, workspaceId ∉ ledger.retired →
          ∃ row ∈ next.areas, row.workspaceId = workspaceId) := by
  unfold checkRotated
  split
  · next due =>
      simp [forEach_eq_ok, due]
  · next notDue =>
      simp only [not_and] at notDue
      simp only [true_iff]
      intro family leaves
      exact absurd leaves (notDue family)

/-- The area check is the relation that its rules state. -/
theorem checkAreas_eq_ok
    {previous : Option Roster}
    {next : Roster} :
    checkAreas ledger previous next = .ok () ↔
      AreasFollow ledger previous next := by
  have freshIff :
      (∃ listed,
          foldEach (checkFresh ledger) ⟨∅, ∅⟩ next.areas = .ok listed) ↔
        ((∀ row ∈ keyRows next.areas,
            row.commitment ∉ ledger.commitments) ∧
          ((keyRows next.areas).map RosterArea.commitment).Nodup) ∧
        (∀ row ∈ keyRows next.areas, ∀ root ∈ row.rootCommitment,
            root ∉ ledger.rootCommitments) ∧
          ((keyRows next.areas).filterMap
            RosterArea.rootCommitment).Nodup := by
    rw [foldEach_checkFresh_isOk]
    simp
  cases previous with
  | none =>
    simp only [checkAreas, ok_bind, bind_eq_ok, exists_unit, forEach_eq_ok,
      checkRow_eq_ok, refuseIf_eq_ok, not_and, not_lt]
    constructor
    · rintro ⟨rows, listed, accepted, few, _⟩
      obtain ⟨⟨fresh, distinct⟩, freshRoots, distinctRoots⟩ :=
        freshIff.mp ⟨listed, accepted⟩
      exact {
        format := by simp
        rows, fresh, distinct, freshRoots, distinctRoots, few
        rotated := by simp
        admitsNone := by simp }
    · intro follows
      obtain ⟨listed, accepted⟩ := freshIff.mpr
        ⟨⟨follows.fresh, follows.distinct⟩, follows.freshRoots,
          follows.distinctRoots⟩
      exact ⟨follows.rows, listed, accepted, follows.few, trivial⟩
  | some previous =>
    simp only [checkAreas, bind_eq_ok, exists_unit, forEach_eq_ok,
      checkRow_eq_ok, refuseIf_eq_ok, not_and, not_lt,
      checkRotated_eq_ok]
    constructor
    · rintro ⟨format, rows, listed, accepted, few, rotated, admitsNone⟩
      obtain ⟨⟨fresh, distinct⟩, freshRoots, distinctRoots⟩ :=
        freshIff.mp ⟨listed, accepted⟩
      exact {
        format := by simpa using format
        rows, fresh, distinct, freshRoots, distinctRoots, few
        rotated := by simpa using rotated
        admitsNone := by simpa using admitsNone }
    · intro follows
      obtain ⟨listed, accepted⟩ := freshIff.mpr
        ⟨⟨follows.fresh, follows.distinct⟩, follows.freshRoots,
          follows.distinctRoots⟩
      exact ⟨follows.format previous rfl, follows.rows, listed, accepted,
        follows.few, follows.rotated previous rfl,
        by simpa using follows.admitsNone previous rfl⟩

end HushOS
