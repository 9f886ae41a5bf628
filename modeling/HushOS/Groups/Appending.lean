import HushOS.Groups.Departing

namespace HushOS

open Toolkit List OrderedMap

namespace Groups

/-!
# Rosters and successions appended

What was checked outside the lock holds under it while the chain has not
moved: departures between the two take members away, and never add one.  So
the seals a call checked cover whoever still holds `members`.
-/

section

variable {group after : Group}

/-- What a seal's storing changes. -/
structure Stored (group after : Group) (seals : List SealInput) : Prop where
  rest : after = { group with seals := after.seals }
  has : ∀ key, after.seals.has key = true ↔
    group.seals.has key = true ∨
      ∃ given ∈ seals, key = (given.groupKeyVersion, given.holderUserId)
  fresh : ∀ given ∈ seals,
    group.seals.has (given.groupKeyVersion, given.holderUserId) = false →
      after.seals.get? (given.groupKeyVersion, given.holderUserId) =
        some given

theorem has_iff_found
    {table : OrderedMap (Nat × String) SealInput}
    {key : Nat × String} :
    table.has key = true ↔ ∃ given, table.get? key = some given := by
  rw [has_iff, OrderedMap.mem_keys]

theorem get?_putSeal
    (group : Group)
    (given : SealInput)
    (key : Nat × String) :
    (group.putSeal given).seals.get? key =
      if key = (given.groupKeyVersion, given.holderUserId) then some given
      else group.seals.get? key := by
  rw [Group.putSeal, get?_set]

/-- One seal stored, or left for the one there is. -/
def putNewer
    (uploader : String)
    (uploaderHolds : Bool)
    (group : Group)
    (given : SealInput) : Group :=
  match group.seals.get? (given.groupKeyVersion, given.holderUserId) with
  | some stored =>
    if stored.holderKeyVersion ≤ given.holderKeyVersion ∧
        (stored.holderKeyVersion < given.holderKeyVersion ∨
          stored.holderUserId = uploader ∨ uploaderHolds = true) then
      group.putSeal given
    else
      group
  | none => group.putSeal given

/-- Putting a newer seal touches its own place alone. -/
theorem putNewer_spec
    (uploader : String)
    (uploaderHolds : Bool)
    (group : Group)
    (given : SealInput) :
    (putNewer uploader uploaderHolds group given =
        { group with
          seals := (putNewer uploader uploaderHolds group given).seals }) ∧
      (∀ key, key ≠ (given.groupKeyVersion, given.holderUserId) →
        (putNewer uploader uploaderHolds group given).seals.get? key =
          group.seals.get? key) ∧
      (∃ row, (putNewer uploader uploaderHolds group given).seals.get?
        (given.groupKeyVersion, given.holderUserId) = some row) ∧
      (group.seals.get? (given.groupKeyVersion, given.holderUserId) = none →
        (putNewer uploader uploaderHolds group given).seals.get?
          (given.groupKeyVersion, given.holderUserId) = some given) := by
  unfold putNewer
  split
  · next stored found =>
      split
      · refine ⟨rfl, ?_, ⟨given, ?_⟩, fun missing => ?_⟩
        · intro key other
          rw [get?_putSeal, if_neg other]
        · rw [get?_putSeal, if_pos rfl]
        · rw [found] at missing
          cases missing
      · refine ⟨rfl, fun _ _ => rfl, ⟨stored, found⟩, fun missing => ?_⟩
        rw [found] at missing
        cases missing
  · refine ⟨rfl, ?_, ⟨given, ?_⟩, fun _ => ?_⟩
    · intro key other
      rw [get?_putSeal, if_neg other]
    · rw [get?_putSeal, if_pos rfl]
    · rw [get?_putSeal, if_pos rfl]

variable {seals : List SealInput} {uploader : String}

/-- Seals for distinct places are all stored. -/
theorem stored_foldl
    {uploaderHolds : Bool}
    (distinct : (seals.map fun given =>
      (given.groupKeyVersion, given.holderUserId)).Nodup)
    (group : Group) :
    Stored group (seals.foldl (putNewer uploader uploaderHolds) group)
      seals := by
  induction seals generalizing group with
  | nil =>
    exact ⟨rfl, by simp, by simp⟩
  | cons given rest inductionHypothesis =>
    rw [map_cons, nodup_cons] at distinct
    obtain ⟨same, others, ⟨row, own⟩, new⟩ :=
      putNewer_spec uploader uploaderHolds group given
    have later := inductionHypothesis distinct.2
      (putNewer uploader uploaderHolds group given)
    refine ⟨?_, ?_, ?_⟩
    · rw [foldl_cons, later.rest, same]
    · intro key
      rw [foldl_cons, later.has]
      by_cases mine : key = (given.groupKeyVersion, given.holderUserId)
      · exact iff_of_true
          (.inl (has_iff_found.mpr ⟨row, mine ▸ own⟩))
          (.inr ⟨given, mem_cons_self, mine⟩)
      · have still : (putNewer uploader uploaderHolds group given).seals.has
            key = group.seals.has key := by
          rw [Bool.eq_iff_iff, has_iff_found, has_iff_found,
            others key mine]
        simp [still, mine]
    · intro one member missing
      rw [foldl_cons]
      rcases mem_cons.mp member with rfl | inRest
      · have unwritten : ∀ other ∈ rest,
            (one.groupKeyVersion, one.holderUserId) ≠
              (other.groupKeyVersion, other.holderUserId) := by
          intro other inRest both
          refine distinct.1 ?_
          rw [both]
          exact mem_map_of_mem inRest
        have absent : group.seals.get?
            (one.groupKeyVersion, one.holderUserId) = none := by
          by_contra present
          obtain ⟨was, stored⟩ := Option.ne_none_iff_exists'.mp present
          rw [has_iff_found.mpr ⟨was, stored⟩] at missing
          cases missing
        rw [← new absent]
        exact get?_foldl_putNewer unwritten _
      · have differs : (one.groupKeyVersion, one.holderUserId) ≠
            (given.groupKeyVersion, given.holderUserId) := by
          intro both
          refine distinct.1 ?_
          rw [← both]
          exact mem_map_of_mem inRest
        refine later.fresh one inRest ?_
        rw [← missing, Bool.eq_iff_iff, has_iff_found, has_iff_found,
          others _ differs]
where
  get?_foldl_putNewer
      {uploader : String}
      {uploaderHolds : Bool}
      {key : Nat × String}
      {rest : List SealInput}
      (unwritten : ∀ other ∈ rest,
        key ≠ (other.groupKeyVersion, other.holderUserId))
      (group : Group) :
      (rest.foldl (putNewer uploader uploaderHolds) group).seals.get? key =
        group.seals.get? key := by
    induction rest generalizing group with
    | nil =>
      rfl
    | cons other rest inductionHypothesis =>
      rw [foldl_cons, inductionHypothesis fun later member =>
        unwritten later (mem_cons_of_mem _ member)]
      exact (putNewer_spec uploader uploaderHolds group other).2.1 key
        (unwritten other mem_cons_self)

theorem stored_of_upsertSeals
    {uploaderHolds : Bool}
    {groupKeyVersion : Nat}
    (upserted : upsertSeals uploader uploaderHolds groupKeyVersion seals
      group = .ok after) :
    Stored group after seals ∧
      ∀ given ∈ seals, group.holds given.holderUserId .members = true ∧
        given.groupKeyVersion ≤ groupKeyVersion := by
  simp only [upsertSeals, bind_eq_ok, exists_unit, forEach_eq_ok,
    refuseIf_eq_ok, not_not, Bool.not_eq_false, not_lt,
    Except.ok.injEq] at upserted
  obtain ⟨checked, distinct, rfl⟩ := upserted
  exact ⟨stored_foldl distinct group,
    fun given member => (checked given member).2⟩

/-- Storing seals for holders leaves the seals standing. -/
theorem standing_stored
    (standing : Standing group)
    (stored : Stored group after seals)
    (given : ∀ one ∈ seals, group.holds one.holderUserId .members = true ∧
      one.groupKeyVersion ≤ group.groupKeyVersion) :
    Standing after := by
  have same : ∀ userId, after.activeRoles userId =
      group.activeRoles userId := by
    intro userId
    rw [stored.rest]
    rfl
  have keyVersion : after.groupKeyVersion = group.groupKeyVersion := by
    rw [stored.rest]
  refine ⟨standing.agrees.of_same (by rw [stored.rest])
    (by rw [stored.rest]) same, ⟨?_, ?_, ?_⟩, ?_⟩
  · intro userId isSealed
    rw [holds_congr (same userId)]
    unfold Group.sealed at isSealed
    rw [keyVersion, stored.has] at isSealed
    rcases isSealed with before | ⟨one, member, is⟩
    · exact standing.sealed.holders userId before
    · rw [Prod.mk.injEq] at is
      exact is.2 ▸ (given one member).1
  · intro version userId isStored
    rw [keyVersion]
    rcases (stored.has _).mp isStored with before | ⟨one, member, is⟩
    · exact standing.sealed.reached version userId before
    · rw [Prod.mk.injEq] at is
      exact is.1 ▸ (given one member).2
  · obtain ⟨userId, isHolder, isSealed⟩ := standing.sealed.signer
    refine ⟨userId, (holds_congr (same userId) _).trans isHolder, ?_⟩
    unfold Group.sealed
    rw [keyVersion]
    exact (stored.has _).mpr (.inl isSealed)
  · rw [stored.rest]
    exact standing.settled

theorem standing_putKeySeals
    (standing : Standing group)
    {reading : Reading}
    (put : putKeySeals group reading uploader seals = .ok after) :
    Standing after := by
  simp only [putKeySeals, storeSeals, bind_eq_ok, exists_unit] at put
  obtain ⟨_, _, roles, _, _, upserted⟩ := put
  obtain ⟨stored, given⟩ := stored_of_upsertSeals upserted
  exact standing_stored standing stored given

/-- A reading of the chain as it still is, with whoever is active in it. -/
structure Current (group : Group) (reading : Reading) : Prop where
  chain : reading.chain = storedChain group
  active : ∀ userId, group.isActive userId = true →
    userId ∈ reading.active

/-- A roster whose checks pass projects its changes. -/
theorem projected_of_checks
    {projected : Group}
    {route : ChainRoute}
    {next : Roster}
    {drops : Bool}
    (agrees : Agrees group)
    (valid : next.Valid)
    (follows : Follows group.head next)
    (admission : checkAdmission group route = .ok ())
    (marked : pendingOf group (changesOf group.head next) = [])
    (applied : applyRoster group.departures route
      (changesOf group.head next) group = .ok (projected, drops)) :
    Projected group projected route next drops := by
  refine ⟨agrees, valid, follows, ?_, ?_, applied⟩
  · rintro userId rfl
    simpa [checkAdmission] using admission
  · intro userId departed
    by_contra unmarked
    have pending : userId ∈ pendingOf group (changesOf group.head next) := by
      refine mem_filter.mpr ⟨?_, ?_⟩
      · rwa [← has_iff]
      · simp only [Bool.not_eq_true', any_eq_false, Bool.and_eq_true,
          decide_eq_true_eq]
        exact fun change member is => unmarked ⟨change, member, is⟩
    rw [marked] at pending
    cases pending

/-- What appending a roster leaves. -/
theorem appendRoster_eq_ok
    {route : ChainRoute}
    {succession : Option ParsedSuccession}
    {next : Roster}
    {digest : String}
    (agrees : Agrees group)
    (valid : next.Valid)
    (follows : Follows group.head next)
    (appended : appendRoster group route succession
      { roster := next
        digest
        changes := changesOf group.head next
        dropsHolder := dropsHolder group.head next } = .ok after) :
    ∃ projected drops, Projected group projected route next drops ∧
      after = { projected with
        departures := .empty
        head := next
        rosterDigest := digest
        successionDue := drops } ∧
      (drops = true → succession ≠ none) := by
  simp only [appendRoster, bind_eq_ok, exists_unit, refuseIf_eq_ok,
    not_not, Except.ok.injEq] at appended
  obtain ⟨_, _, admission, marked, ⟨projected, drops⟩, applied, _, succeeds,
    rfl⟩ := appended
  refine ⟨projected, drops, projected_of_checks agrees valid follows
    admission marked applied, rfl, ?_⟩
  intro drop none
  exact succeeds ⟨drop, none⟩

end

section

variable {group projected after : Group}
variable {next : Roster}
variable {route : ChainRoute}
variable {drops : Bool}

theorem Projected.holds_eq
    (is : Projected group projected route next drops)
    (userId : String)
    (role : GroupRole) :
    projected.holds userId role = activeWith (rosterEntry next userId) role := by
  unfold Group.holds
  rw [is.activeRoles_eq]
  cases rosterEntry next userId with
  | none => rfl
  | some entry =>
    cases status : entry.status <;> simp [activeWith, status]

/-- An active person was active before or is the one admitted. -/
theorem Projected.active_before
    (is : Projected group projected route next drops)
    {userId : String}
    (isActive : projected.isActive userId = true) :
    group.isActive userId = true ∨ route.admitted = some userId :=
  (applyRoster_eq_ok is.applied).2.1.active_before isActive

/-- A holder who stays keeps the stored seal. -/
theorem Projected.seal_stays
    (is : Projected group projected route next drops)
    {key : Nat × String}
    (holds : projected.holds key.2 .members = true)
    (stored : group.seals.has key = true) :
    projected.seals.has key = true := by
  obtain ⟨_, wrote, _⟩ := applyRoster_eq_ok is.applied
  obtain ⟨row, found⟩ := has_iff_found.mp stored
  refine has_iff_found.mpr ⟨row, (wrote.seals key row).mpr ⟨found, ?_⟩⟩
  rintro ⟨changed, removes, isMember⟩
  obtain ⟨change, member, mine⟩ := mem_map.mp changed
  have outcome := wrote.outcome change member
  have isActive := isActive_iff.mp (isActive_of_holds holds)
  rw [← mine, stateOf] at isActive
  rw [← mine] at removes isMember
  generalize projected.memberships.get? change.userId = now
    at outcome isActive
  cases outcome with
  | admitted admits _ =>
    rw [removes] at admits
    cases admits
  | removed _ _ _ =>
    obtain ⟨membership, was, _⟩ := stateOf_eq_some.mp isMember
    simp [was] at isActive
  | marked _ _ inactive =>
    exact inactive isMember
  | kept removesOther _ _ _ _ =>
    exact removesOther removes
  | changed removesOther _ _ _ =>
    exact removesOther removes

end

/-- A group whose chain has moved on, before its seals are stored. -/
structure Ready
    (group ready : Group)
    (succeeds : Bool)
    (seals : List SealInput) : Prop where
  agrees : Agrees ready
  settled : ready.successionDue = false
  keyVersion : ready.groupKeyVersion =
    if succeeds then group.groupKeyVersion + 1 else group.groupKeyVersion
  fewer : ∀ key, ready.seals.has key = true → group.seals.has key = true
  kept : ∀ key, ready.holds key.2 .members = true →
    group.seals.has key = true → ready.seals.has key = true
  stays : succeeds = false → ∀ userId, group.holds userId .members = true →
    ready.holds userId .members = true
  fresh : ∀ userId, ready.holds userId .members = true →
    group.holds userId .members = false ∨ succeeds = true →
      ∃ given ∈ seals, given.holderUserId = userId ∧
        given.groupKeyVersion = ready.groupKeyVersion

/-- Every holder there should be has a seal from the call itself. -/
def Handed
    (group after : Group)
    (succeeds : Bool)
    (seals : List SealInput) : Prop :=
  ∀ userId, after.holds userId .members = true →
    group.holds userId .members = false ∨ succeeds = true →
      ∃ given ∈ seals, given.holderUserId = userId ∧
        given.groupKeyVersion = after.groupKeyVersion ∧
          after.seals.get? (after.groupKeyVersion, userId) = some given

namespace Ready

variable {group ready after : Group}
variable {succeeds : Bool}
variable {seals : List SealInput}

theorem unsealed
    (isReady : Ready group ready succeeds seals)
    (standing : Standing group)
    {userId : String}
    (new : group.holds userId .members = false ∨ succeeds = true) :
    ready.seals.has (ready.groupKeyVersion, userId) = false := by
  by_contra stored
  rw [Bool.not_eq_false] at stored
  have before := isReady.fewer _ stored
  cases succeeds with
  | true =>
    have reached := standing.sealed.reached _ _ before
    rw [isReady.keyVersion, if_pos rfl] at reached
    omega
  | false =>
    rw [isReady.keyVersion] at before
    have holds := standing.sealed.holders userId before
    rcases new with unheld | wrong
    · rw [unheld] at holds
      cases holds
    · cases wrong

/-- After the call the seals of all holders stand. -/
theorem standing_after
    (isReady : Ready group ready succeeds seals)
    (standing : Standing group)
    (stored : Stored ready after seals)
    (given : ∀ one ∈ seals, ready.holds one.holderUserId .members = true ∧
      one.groupKeyVersion ≤ ready.groupKeyVersion) :
    Standing after := by
  have same : ∀ userId, after.activeRoles userId =
      ready.activeRoles userId := by
    intro userId
    rw [stored.rest]
    rfl
  have keyVersion : after.groupKeyVersion = ready.groupKeyVersion := by
    rw [stored.rest]
  refine ⟨isReady.agrees.of_same (by rw [stored.rest])
    (by rw [stored.rest]) same, ⟨?_, ?_, ?_⟩, ?_⟩
  · intro userId isSealed
    rw [holds_congr (same userId)]
    unfold Group.sealed at isSealed
    rw [keyVersion, stored.has] at isSealed
    rcases isSealed with before | ⟨one, member, is⟩
    · cases succeeds with
      | true =>
        have unsealed : ready.seals.has (ready.groupKeyVersion, userId) =
            false := isReady.unsealed standing (.inr rfl)
        rw [before] at unsealed
        cases unsealed
      | false =>
        have earlier := isReady.fewer _ before
        rw [isReady.keyVersion] at earlier
        exact isReady.stays rfl userId
          (standing.sealed.holders userId earlier)
    · rw [Prod.mk.injEq] at is
      exact is.2 ▸ (given one member).1
  · intro version userId isStored
    rw [keyVersion]
    rcases (stored.has _).mp isStored with before | ⟨one, member, is⟩
    · have reached := standing.sealed.reached version userId
        (isReady.fewer _ before)
      rw [isReady.keyVersion]
      split <;> omega
    · rw [Prod.mk.injEq] at is
      exact is.1 ▸ (given one member).2
  · cases succeeds with
    | true =>
      obtain ⟨userId, holds⟩ := isReady.agrees.signer
      obtain ⟨one, member, rfl, version⟩ :=
        isReady.fresh userId holds (.inr rfl)
      refine ⟨_, (holds_congr (same _) _).trans holds, ?_⟩
      unfold Group.sealed
      rw [keyVersion, ← version]
      exact (stored.has _).mpr (.inr ⟨one, member, rfl⟩)
    | false =>
      obtain ⟨userId, holds, isSealed⟩ := standing.sealed.signer
      have still := isReady.stays rfl userId holds
      refine ⟨userId, (holds_congr (same _) _).trans still, ?_⟩
      unfold Group.sealed at isSealed ⊢
      rw [keyVersion, isReady.keyVersion]
      exact (stored.has _).mpr
        (.inl (isReady.kept (group.groupKeyVersion, userId) still
          isSealed))
  · rw [stored.rest]
    exact isReady.settled

theorem handsOver
    (isReady : Ready group ready succeeds seals)
    (standing : Standing group)
    (stored : Stored ready after seals) :
    Handed group after succeeds seals := by
  intro userId holds new
  have same : after.activeRoles userId = ready.activeRoles userId := by
    rw [stored.rest]
    rfl
  have keyVersion : after.groupKeyVersion = ready.groupKeyVersion := by
    rw [stored.rest]
  rw [holds_congr same] at holds
  obtain ⟨one, member, rfl, version⟩ := isReady.fresh userId holds new
  refine ⟨one, member, rfl, version.trans keyVersion.symm, ?_⟩
  have unsealed := isReady.unsealed standing new
  rw [keyVersion]
  rw [← version] at unsealed ⊢
  exact stored.fresh one member unsealed

end Ready

section

variable {group after : Group}
variable {reading : Reading}

variable {seals : List SealInput}

/-- Each holder a succession keeps is given a seal. -/
theorem covered_of_requireSealsCoverHolders
    {head : Roster}
    {groupKeyVersion : Nat}
    {admitted : Option String}
    (covers : requireSealsCoverHolders head seals groupKeyVersion
      reading.active admitted = .ok ())
    {userId : String}
    (listed : activeWith (rosterEntry head userId) .members = true)
    (known : userId ∈ reading.active ∨ admitted = some userId) :
    ∃ given ∈ seals, given.holderUserId = userId ∧
      given.groupKeyVersion = groupKeyVersion := by
  simp only [requireSealsCoverHolders, refuseIf_eq_ok, not_not] at covers
  have member : userId ∈ holdersOf head reading.active admitted := by
    cases found : rosterEntry head userId with
    | none =>
      rw [found] at listed
      cases listed
    | some entry =>
      have mine := userId_of_rosterEntry found
      refine mem_map.mpr ⟨entry, mem_filter.mpr
        ⟨mem_of_rosterEntry found, ?_⟩, mine⟩
      rw [found] at listed
      rw [Bool.and_eq_true, mine]
      refine ⟨listed, ?_⟩
      simpa using known
  have sorted := (mem_sortBy id).mpr member
  rw [covers, mem_sortBy, mem_map] at sorted
  obtain ⟨given, inSeals, mine⟩ := sorted
  obtain ⟨inSeals, version⟩ := mem_filter.mp inSeals
  exact ⟨given, inSeals, mine, of_decide_eq_true version⟩

/-- Each new holder is given a seal. -/
theorem sealed_of_requireHolderSeals
    {previous next : Roster}
    {groupKeyVersion : Nat}
    (required : requireHolderSeals previous next seals groupKeyVersion =
      .ok ())
    {userId : String}
    (listed : activeWith (rosterEntry next userId) .members = true)
    (unlisted : activeWith (rosterEntry previous userId) .members = false) :
    ∃ given ∈ seals, given.holderUserId = userId ∧
      given.groupKeyVersion = groupKeyVersion := by
  simp only [requireHolderSeals, forEach_eq_ok, refuseIf_eq_ok,
    not_and] at required
  cases found : rosterEntry next userId with
  | none =>
    rw [found] at listed
    cases listed
  | some entry =>
    have mine := userId_of_rosterEntry found
    rw [found] at listed
    have given := required entry (mem_of_rosterEntry found) listed
    rw [mine] at given
    have sealed := given unlisted
    rw [Bool.not_eq_false, any_eq_true] at sealed
    obtain ⟨one, member, is⟩ := sealed
    rw [Bool.and_eq_true, decide_eq_true_eq, decide_eq_true_eq] at is
    exact ⟨one, member, is⟩

/-- A projected roster with its succession is ready for the seals. -/
theorem ready_of_projected
    {projected ready : Group}
    {next : Roster}
    {digest : String}
    {route : ChainRoute}
    {drops : Bool}
    {succession : Option ParsedSuccession}
    {keyVersion : Nat}
    (current : Current group reading)
    (is : Projected group projected route next drops)
    (succeeds : drops = true → succession ≠ none)
    (taken : appendPart appendSuccession succession
      { projected with
        departures := .empty
        head := next
        rosterDigest := digest
        successionDue := drops } = .ok ready)
    (version : keyVersion =
      if succession.isSome then group.groupKeyVersion + 1
      else group.groupKeyVersion)
    (covers : succession.isSome = true →
      requireSealsCoverHolders next seals keyVersion reading.active
        route.admitted = .ok ())
    (required : requireHolderSeals group.head next seals keyVersion =
      .ok ()) :
    Ready group ready succession.isSome seals := by
  obtain ⟨_, wrote, _⟩ := applyRoster_eq_ok is.applied
  have keptVersion : projected.groupKeyVersion = group.groupKeyVersion := by
    rw [wrote.rest]
  have parts : ready.memberships = projected.memberships ∧
      ready.head = next ∧ ready.departures = .empty ∧
      ready.seals = projected.seals ∧ ready.groupKeyVersion = keyVersion ∧
      ready.successionDue = false := by
    cases succession with
    | none =>
      simp only [appendPart, Except.ok.injEq] at taken
      subst taken
      refine ⟨rfl, rfl, rfl, rfl, keptVersion.trans version.symm, ?_⟩
      cases drops with
      | true => exact absurd rfl (succeeds rfl)
      | false => rfl
    | some succession =>
      simp only [appendPart, appendSuccession, bind_eq_ok, exists_unit,
        refuseIf_eq_ok, not_or, not_not, Except.ok.injEq] at taken
      obtain ⟨⟨old, new, _, _⟩, rfl⟩ := taken
      refine ⟨rfl, rfl, rfl, rfl, ?_, rfl⟩
      rw [version]
      change succession.newVersion = _
      rw [new, old]
      exact congrArg (· + 1) keptVersion
  obtain ⟨members, head, departures, sealsSame, isVersion, settled⟩ := parts
  have agrees := is.agrees_after members head departures
  have holds : ∀ userId role, ready.holds userId role =
      activeWith (rosterEntry next userId) role := by
    intro userId role
    rw [← is.holds_eq]
    exact holds_congr (activeRoles_congr (by rw [members])) role
  refine ⟨agrees, settled, isVersion.trans version, ?_, ?_, ?_, ?_⟩
  · intro key stored
    rw [sealsSame] at stored
    obtain ⟨row, found⟩ := has_iff_found.mp stored
    exact has_iff_found.mpr ⟨row, ((wrote.seals key row).mp found).1⟩
  · intro key isHolder stored
    rw [sealsSame]
    rw [holds, ← is.holds_eq] at isHolder
    exact is.seal_stays isHolder stored
  · intro alone userId isHolder
    have before := is.agrees.activeWith_of_holds isHolder
    rw [holds]
    by_contra gone
    rw [Bool.not_eq_true] at gone
    have dropped : dropsHolder group.head next = true := by
      rw [dropsHolder_iff]
      cases found : rosterEntry group.head userId with
      | none =>
        rw [found] at before
        cases before
      | some entry =>
        refine ⟨entry, mem_of_rosterEntry found, found ▸ before, ?_⟩
        rw [userId_of_rosterEntry found]
        exact gone
    rw [← is.drops_eq] at dropped
    have carried := succeeds dropped
    rw [Option.isSome_eq_false_iff, Option.isNone_iff_eq_none] at alone
    exact carried alone
  · intro userId isHolder new
    rw [isVersion]
    have listed := isHolder
    rw [holds] at listed
    by_cases carried : succession.isSome = true
    · refine covered_of_requireSealsCoverHolders (covers carried) listed ?_
      rw [← is.holds_eq] at listed
      rcases is.active_before (isActive_of_holds listed) with before | admitted
      · exact .inl (current.active userId before)
      · exact .inr admitted
    · refine sealed_of_requireHolderSeals required listed ?_
      have unheld := new.resolve_right carried
      by_contra before
      rw [Bool.not_eq_false] at before
      have isListed : active (rosterEntry group.head userId) = true := by
        cases found : rosterEntry group.head userId with
        | none =>
          rw [found] at before
          cases before
        | some entry =>
          rw [found] at before
          simp_all [active, activeWith]
      rcases (is.agrees.listed userId).mp isListed with isActive | departed
      · rw [is.agrees.holds_of_activeWith isActive before] at unheld
        cases unheld
      · obtain ⟨change, member, rfl, left⟩ := is.marked userId departed
        obtain ⟨entry, inNext, status, _⟩ :=
          rosterEntry_of_change is.valid member
        rw [inNext] at listed
        simp [activeWith, status, left] at listed

/-- What a write of the chain leaves, and how far it moves it. -/
structure Appended
    (group after : Group)
    (succeeds : Bool)
    (seals : List SealInput) : Prop where
  standing : Standing after
  handsOver : Handed group after succeeds seals

theorem appended_of_ready
    {ready stored : Group}
    {succeeds : Bool}
    {uploader : String}
    (standing : Standing group)
    (isReady : Ready group ready succeeds seals)
    (upserted : upsertSeals uploader true ready.groupKeyVersion seals ready =
      .ok stored)
    (revision : Nat) :
    Appended group { stored with chainRevision := revision } succeeds
      seals := by
  obtain ⟨isStored, given⟩ := stored_of_upsertSeals upserted
  have stands := isReady.standing_after standing isStored given
  have handsOver := isReady.handsOver standing isStored
  exact ⟨stands.of_same rfl rfl rfl rfl (fun _ => rfl)
    (fun _ stored => stored) (fun _ _ stored => stored), handsOver⟩

/-- What a roster route's call is held to before its write. -/
structure Checked
    (reading : Reading)
    (call : RosterCall)
    (keyVersion : Nat) : Prop where
  revision : reading.chain.revision = call.expectedRevision
  follows : Follows reading.chain.roster call.roster.val
  version : keyVersion =
    if call.succession.isSome then reading.chain.groupKeyVersion + 1
    else reading.chain.groupKeyVersion
  covers : call.succession.isSome = true →
    requireSealsCoverHolders call.roster.val call.seals keyVersion
      reading.active call.route.admitted = .ok ()
  required : requireHolderSeals reading.chain.roster call.roster.val
    call.seals keyVersion = .ok ()

/-- What a checked call writes. -/
def chainInputOf (chain : StoredChain) (call : RosterCall) : ChainInput where
  uploader := call.uploader
  expectedRevision := call.expectedRevision
  route := call.route
  roster := some
    { roster := call.roster.val
      digest := call.digest
      changes := changesOf chain.roster call.roster.val
      dropsHolder := dropsHolder chain.roster call.roster.val }
  succession := call.succession
  seals := call.seals
  elsewhere := call.elsewhere

/-- A chain write is one that is checked and appended. -/
theorem writeChain_eq_ok
    {call : RosterCall}
    (written : writeChain group reading call = .ok after) :
    ∃ keyVersion, Checked reading call keyVersion ∧
      appendChain group (chainInputOf reading.chain call) = .ok after := by
  simp only [writeChain, checkRoster, bind_eq_ok, exists_unit,
    refuseIf_eq_ok, not_not, Except.ok.injEq] at written
  obtain ⟨revision, _, _, _, ⟨_, follows, rfl⟩, keyVersion, isVersion, _,
    covers, required, appended⟩ := written
  refine ⟨keyVersion, ⟨revision, follows, ?_, ?_, required⟩, appended⟩
  · unfold keyVersionAfter at isVersion
    split at isVersion
    · next succession carried =>
        simp only [checkSuccession, bind_eq_ok, exists_unit, refuseIf_eq_ok,
          not_or, not_not, Except.ok.injEq] at isVersion
        obtain ⟨_, ⟨old, new, _⟩, rfl⟩ := isVersion
        rw [carried, Option.isSome_some, if_pos rfl, new, old]
    · next alone =>
        rw [Except.ok.injEq] at isVersion
        rw [alone, ← isVersion]
        rfl
  · intro carried
    rw [requireNewKeySealed, if_pos carried] at covers
    exact covers

/-- Appending runs roster, succession and seals in turn. -/
theorem appendChain_eq_ok
    {input : ChainInput}
    (appended : appendChain group input = .ok after) :
    group.dissolved = false ∧
      group.chainRevision = input.expectedRevision ∧
      ∃ rostered ready stored,
        appendPart (fun group => appendRoster group input.route
          input.succession) input.roster group = .ok rostered ∧
        appendPart appendSuccession input.succession rostered = .ok ready ∧
        upsertSeals input.uploader true ready.groupKeyVersion input.seals
          ready = .ok stored ∧
        after = { stored with
          chainRevision := stored.chainRevision + 1 } := by
  simp only [appendChain, bind_eq_ok, exists_unit, refuseIf_eq_ok, not_not,
    Except.ok.injEq] at appended
  obtain ⟨_, locked, _, _, revision, rostered, first, ready, second, stored,
    third, rfl⟩ := appended
  exact ⟨lockGroup_eq_ok.mp locked, revision, rostered, ready, stored, first,
    second, third, rfl⟩

/-- A chain write on a current reading is appended. -/
theorem appended_of_writeChain
    {call : RosterCall}
    (standing : Standing group)
    (current : reading.chain.revision = group.chainRevision →
      Current group reading)
    (written : writeChain group reading call = .ok after) :
    Appended group after call.succession.isSome call.seals := by
  obtain ⟨keyVersion, checked, appended⟩ := writeChain_eq_ok written
  obtain ⟨_, revision, rostered, ready, stored, first, second, third, rfl⟩ :=
    appendChain_eq_ok appended
  have isCurrent := current (checked.revision.trans revision.symm)
  have follows := checked.follows
  have version := checked.version
  have required := checked.required
  rw [isCurrent.chain] at follows version required
  have isRostered : appendRoster group call.route call.succession
      { roster := call.roster.val
        digest := call.digest
        changes := changesOf group.head call.roster.val
        dropsHolder := dropsHolder group.head call.roster.val } =
        .ok rostered := by
    rw [← first]
    simp only [appendPart, chainInputOf, isCurrent.chain, storedChain]
  obtain ⟨projected, drops, is, rfl, succeeds⟩ :=
    appendRoster_eq_ok standing.agrees call.roster.property follows isRostered
  exact appended_of_ready standing
    (ready_of_projected isCurrent is succeeds second version
      checked.covers required) third _

/-- A posted succession on a current reading is appended. -/
theorem appended_of_postSuccession
    {call : SuccessionCall}
    (standing : Standing group)
    (current : reading.chain.revision = group.chainRevision →
      Current group reading)
    (posted : postSuccession group reading call = .ok after) :
    Appended group after true call.seals := by
  simp only [postSuccession, bind_eq_ok, exists_unit, refuseIf_eq_ok,
    not_not] at posted
  obtain ⟨expected, keyVersion, isVersion, _, covers, appended⟩ := posted
  obtain ⟨_, revision, rostered, ready, stored, first, second, third, rfl⟩ :=
    appendChain_eq_ok appended
  have isCurrent := current (expected.trans revision.symm)
  simp only [appendPart, Except.ok.injEq] at first
  subst first
  simp only [checkSuccession, bind_eq_ok, exists_unit, refuseIf_eq_ok, not_or,
    not_not, Except.ok.injEq] at isVersion
  obtain ⟨_, ⟨old, new, _⟩, rfl⟩ := isVersion
  simp only [appendPart, appendSuccession, bind_eq_ok, exists_unit,
    refuseIf_eq_ok, Except.ok.injEq] at second
  obtain ⟨_, rfl⟩ := second
  rw [isCurrent.chain] at old covers
  have isReady : Ready group
      { group with
        groupKeyVersion := call.succession.newVersion
        successionDue := false } true call.seals := {
    agrees := standing.agrees.of_same rfl rfl fun _ => rfl
    settled := rfl
    keyVersion := by
      change call.succession.newVersion = _
      rw [new, old]
      rfl
    fewer := fun _ stored => stored
    kept := fun _ _ stored => stored
    stays := fun same => by cases same
    fresh := by
      intro userId holds _
      exact covered_of_requireSealsCoverHolders covers
        (standing.agrees.activeWith_of_holds holds)
        (.inl (isCurrent.active userId (isActive_of_holds holds))) }
  exact appended_of_ready standing isReady third _

end

end Groups

end HushOS
