import HushOS.Groups.Cabinets
import HushOS.Groups.Granting

namespace HushOS

open Toolkit List OrderedMap

namespace Groups

/-!
# What a call reads of the grants owed

While the chain stays where a call read it, nobody becomes active, no folder
becomes live or moves on, and no member loses a grant: what the call read, at
whatever moments, is still at least what is owed.
-/

namespace Family

/-- A folder is live at a version of its key. -/
def Live (family : Family) (workspaceId : String) (version : Nat) : Prop :=
  ∃ area, family.areas.get? workspaceId = some area ∧ area.deleted = false ∧
    area.workspaceKeyVersion = version

/-- A member lacks a grant of a live folder's current key. -/
def Gap (family : Family) (workspaceId userId : String) : Prop :=
  ∃ version, family.Live workspaceId version ∧
    family.group.isActive userId = true ∧
    family.granted workspaceId version userId = false

end Family

section Reads

variable {family : Family}

theorem granted_iff
    {workspaceId userId : String}
    {version : Nat} :
    family.granted workspaceId version userId = true ↔
      ∃ keyVersion grant, family.grants.get?
        (workspaceId, version, userId, keyVersion) = some grant := by
  simp only [Family.granted, any_eq_true, OrderedMap.mem_keys,
    Bool.and_eq_true, decide_eq_true_eq]
  constructor
  · rintro ⟨⟨_, _, _, keyVersion⟩, ⟨grant, found⟩, ⟨rfl, rfl⟩, rfl⟩
    exact ⟨keyVersion, grant, found⟩
  · rintro ⟨keyVersion, grant, found⟩
    exact ⟨_, ⟨grant, found⟩, ⟨rfl, rfl⟩, rfl⟩

theorem mem_listAreas
    {workspaceId : String}
    {version : Nat} :
    (workspaceId, version) ∈ listAreas family ↔
      family.Live workspaceId version := by
  simp only [listAreas, mem_sortBy, mem_filterMap,
    Option.ite_none_left_eq_some, Option.some.injEq, Prod.mk.injEq]
  constructor
  · rintro ⟨⟨_, area⟩, member, undeleted, rfl, rfl⟩
    exact ⟨area, get?_eq_some.mpr member, by simpa using undeleted,
      rfl⟩
  · rintro ⟨area, found, undeleted, rfl⟩
    exact ⟨(workspaceId, area), get?_eq_some.mp found,
      by simpa using undeleted, rfl, rfl⟩

theorem mem_missingGrants
    {workspaceId userId : String} :
    (workspaceId, userId) ∈ missingGrants family ↔
      family.Gap workspaceId userId := by
  simp only [missingGrants, mem_flatMap, mem_map, mem_filter,
    mem_sortBy, mem_listActiveMemberIds, Bool.not_eq_true', Prod.mk.injEq]
  constructor
  · rintro ⟨⟨_, version⟩, listed, _, ⟨isActive, missing⟩, rfl, rfl⟩
    exact ⟨version, mem_listAreas.mp listed, isActive, missing⟩
  · rintro ⟨version, live, isActive, missing⟩
    exact ⟨(workspaceId, version), mem_listAreas.mpr live, userId,
      ⟨isActive, missing⟩, rfl, rfl⟩

end Reads

/-- What a write that leaves the chain leaves of members, folders and grants. -/
structure Later (before after : Family) : Prop where
  chain : storedChain after.group = storedChain before.group
  rosters : after.rosters = before.rosters
  fewer : ∀ userId, after.group.isActive userId = true →
    before.group.isActive userId = true
  live : ∀ workspaceId version, after.Live workspaceId version →
    before.Live workspaceId version
  granted : ∀ workspaceId version userId, after.Live workspaceId version →
    after.group.isActive userId = true →
    before.granted workspaceId version userId = true →
      after.granted workspaceId version userId = true

section

variable {before after : Family}

theorem Later.refl (family : Family) : Later family family :=
  ⟨rfl, rfl, fun _ => id, fun _ _ => id, fun _ _ _ _ _ => id⟩

theorem Later.of_group
    {group : Group}
    (chain : storedChain group = storedChain before.group)
    (fewer : ∀ userId, group.isActive userId = true →
      before.group.isActive userId = true) :
    Later before { before with group } :=
  ⟨chain, rfl, fewer, fun _ _ => id, fun _ _ _ _ _ => id⟩

theorem Later.of_areas
    {areas : OrderedMap String Area}
    (live : ∀ workspaceId area, areas.get? workspaceId = some area →
      area.deleted = false →
      ∃ was, before.areas.get? workspaceId = some was ∧
        was.deleted = false ∧
        was.workspaceKeyVersion = area.workspaceKeyVersion) :
    Later before { before with areas } := by
  refine ⟨rfl, rfl, fun _ => id, ?_, fun _ _ _ _ _ => id⟩
  rintro workspaceId _ ⟨area, found, undeleted, rfl⟩
  exact live workspaceId area found undeleted

theorem Later.gap
    (later : Later before after)
    {workspaceId userId : String}
    (gap : after.Gap workspaceId userId) :
    before.Gap workspaceId userId := by
  obtain ⟨version, live, isActive, missing⟩ := gap
  refine ⟨version, later.live _ _ live, later.fewer _ isActive, ?_⟩
  cases had : before.granted workspaceId version userId with
  | false =>
    rfl
  | true =>
    have still := later.granted _ _ _ live isActive had
    exact absurd (missing.symm.trans still) Bool.false_ne_true

end

theorem has_putGrant
    {uploader : String}
    {uploaderHolds : Bool}
    {grants : OrderedMap GrantRow GrantInput}
    (grant : GrantInput)
    {row : GrantRow}
    (had : ∃ stored, grants.get? row = some stored) :
    ∃ stored,
      (putGrant uploader uploaderHolds grants grant).get? row =
        some stored := by
  unfold putGrant
  split
  · exact had
  · rw [get?_set]
    split
    · exact ⟨_, rfl⟩
    · exact had

/-- Storing grants only adds to what a family has. -/
theorem later_upsertGrants
    {uploader : String}
    {uploaderHolds : Bool}
    {grants : List GrantInput}
    {before after : Family}
    (stored : upsertGrants uploader uploaderHolds grants before =
      .ok after) :
    Later before after ∧ after.group = before.group := by
  simp only [upsertGrants, bind_eq_ok, exists_unit, Except.ok.injEq] at stored
  obtain ⟨_, _, rfl⟩ := stored
  refine ⟨⟨rfl, rfl, fun _ => id, fun _ _ => id, ?_⟩, rfl⟩
  intro workspaceId version userId _ _ had
  obtain ⟨keyVersion, had⟩ := granted_iff.mp had
  refine granted_iff.mpr ⟨keyVersion, ?_⟩
  generalize (grants.filter fun grant =>
    uploaderHolds || grant.granteeUserId = uploader ||
      !before.granted grant.workspaceId grant.workspaceKeyVersion
        grant.granteeUserId) = writable
  generalize before.grants = table at had ⊢
  induction writable generalizing table with
  | nil =>
    exact had
  | cons grant rest inductionHypothesis =>
    exact inductionHypothesis _ (has_putGrant grant had)

section

variable {family : Family}
variable {userId : String}

theorem get?_revoke
    {row : GrantRow}
    (other : row.2.2.1 ≠ userId) :
    (family.revoke userId).grants.get? row = family.grants.get? row :=
  (get?_keep _ _ _).trans (if_pos (by simpa using other))

theorem live_revoke
    {workspaceId : String}
    {version : Nat} :
    (family.revoke userId).Live workspaceId version ↔
      family.Live workspaceId version := by
  simp only [Family.Live, Family.revoke, get?_mapValues,
    Option.map_eq_some_iff]
  constructor
  · rintro ⟨_, ⟨area, found, rfl⟩, undeleted, version⟩
    exact ⟨area, found, undeleted, version⟩
  · rintro ⟨area, found, undeleted, version⟩
    exact ⟨_, ⟨area, found, rfl⟩, undeleted, version⟩

theorem not_live_retireAllAreas
    {workspaceId : String}
    {version : Nat} :
    ¬ family.retireAllAreas.Live workspaceId version := by
  rintro ⟨_, found, undeleted, _⟩
  obtain ⟨_, _, rfl⟩ := Option.map_eq_some_iff.mp
    ((get?_mapValues _ _ _).symm.trans found)
  cases undeleted

/-- A departure leaves the chain and makes no one active. -/
theorem later_departed
    {gone : Bool}
    {group : Group}
    (chain : storedChain group = storedChain family.group)
    (fewer : ∀ other, group.isActive other = true →
      family.group.isActive other = true)
    (inactive : gone = true → group.isActive userId = false) :
    Later family (family.departed userId gone group) := by
  have revoked : Later family
      { (if gone then family.revoke userId else family) with group } := by
    cases gone with
    | false =>
      exact .of_group chain fewer
    | true =>
      refine ⟨chain, rfl, fewer, fun _ _ => live_revoke.mp, ?_⟩
      intro workspaceId version other _ isActive had
      obtain ⟨keyVersion, grant, found⟩ := granted_iff.mp had
      refine granted_iff.mpr ⟨keyVersion, grant, ?_⟩
      refine (get?_revoke ?_).trans found
      rintro rfl
      exact absurd ((inactive rfl).symm.trans isActive) Bool.false_ne_true
  unfold Family.departed
  dsimp only
  split
  · refine ⟨revoked.chain, revoked.rosters, revoked.fewer, ?_, ?_⟩
    · exact fun _ _ live => absurd live not_live_retireAllAreas
    · exact fun _ _ _ live => absurd live not_live_retireAllAreas
  · exact revoked

end

section

variable {household : Household}

/-- A deletion leaves the chain and its person inactive. -/
theorem deleted_of_deleteAccount
    {group after : Group}
    {userId : String}
    {listed elsewhere : Bool}
    (deleted : deleteAccount group userId listed elsewhere = .ok after) :
    storedChain after = storedChain group ∧
      (∀ other, after.isActive other = true → group.isActive other = true) ∧
      after.isActive userId = false := by
  have gone : ∀ before : Group, (cascade before userId).isActive userId =
      false := by
    intro before
    refine isActive_eq_false.mpr ?_
    rw [stateOf, cascade, get?_erase, if_pos rfl]
    simp
  unfold deleteAccount at deleted
  split at deleted
  · split at deleted
    · next departed left =>
        cases deleted
        have chain : storedChain (cascade departed userId) =
            storedChain departed := rfl
        exact ⟨chain.trans (Departed.chain left), fun other isActive =>
          (departed_of_depart left).fewer (cascade_fewer _ _ isActive),
          gone departed⟩
    · cases deleted
      exact ⟨rfl, fun other => cascade_fewer _ _, gone group⟩
    · cases deleted
  · cases deleted
    exact ⟨rfl, fun other => cascade_fewer _ _, gone group⟩

theorem revision_of_writeFamily
    {family after : Family}
    {reading : FamilyReading}
    {call : FamilyCall}
    (written : writeFamily family reading call = .ok after) :
    after.group.chainRevision = family.group.chainRevision + 1 := by
  simp only [writeFamily, bind_eq_ok, exists_unit, refusing_eq_ok] at written
  obtain ⟨_, group, wrote, folders, _, grants, _, _, stored⟩ := written
  obtain ⟨_, _, appended⟩ := writeChain_eq_ok wrote
  rw [(later_upsertGrants stored).2]
  exact (revision_of_appendChain appended).1

/-- A move either leaves the chain or raises its revision by one. -/
theorem later_or_next
    {move : FamilyMove}
    {after : Family}
    (attempted : household.attempt move = .ok after) :
    Later household.family after ∨
      after.group.chainRevision =
        household.family.group.chainRevision + 1 := by
  cases move with
  | read | listMembers | listAreas | listGaps =>
    cases attempted
    exact .inl (.refl _)
  | write number call =>
    simp only [Household.attempt] at attempted
    split at attempted
    · exact .inr (revision_of_writeFamily attempted)
    · cases attempted
  | succeed number call =>
    simp only [Household.attempt] at attempted
    split at attempted
    · simp only [bind_eq_ok, refusing_eq_ok, Except.ok.injEq] at attempted
      obtain ⟨group, posted, rfl⟩ := attempted
      simp only [postSuccession, bind_eq_ok, exists_unit] at posted
      obtain ⟨_, _, _, _, _, appended⟩ := posted
      exact .inr (revision_of_appendChain appended).1
    · cases attempted
  | putSeals uploader seals =>
    simp only [Household.attempt, bind_eq_ok, refusing_eq_ok,
      Except.ok.injEq] at attempted
    obtain ⟨group, put, rfl⟩ := attempted
    simp only [storeSeals, bind_eq_ok, exists_unit] at put
    obtain ⟨_, _, _, _, upserted⟩ := put
    have rest := (stored_of_upsertSeals upserted).1.rest
    refine .inl (.of_group (by rw [rest]; rfl) fun userId isActive => ?_)
    rw [rest] at isActive
    exact isActive
  | putGrants number uploader grants =>
    simp only [Household.attempt] at attempted
    split at attempted
    · simp only [refusing_eq_ok, putGrants, bind_eq_ok, exists_unit]
        at attempted
      obtain ⟨_, _, _, _, _, stored⟩ := attempted
      exact .inl (later_upsertGrants stored).1
    · cases attempted
  | accept userId invitationRoles elsewhere =>
    simp only [Household.attempt, acceptInvitation, bind_eq_ok,
      refusing_eq_ok, exists_unit, refuseIf_eq_ok,
      Except.ok.injEq] at attempted
    obtain ⟨_, ⟨_, inactive, _, rfl⟩, rfl⟩ := attempted
    refine .inl (.of_group rfl fun other isActive => ?_)
    unfold Group.isActive at isActive ⊢
    rwa [activeRoles_accepted (by simpa using inactive)] at isActive
  | decline holder userId =>
    simp only [Household.attempt, declinePending, bind_eq_ok,
      refusing_eq_ok, exists_unit, refuseIf_eq_ok, not_not,
      Except.ok.injEq] at attempted
    obtain ⟨_, ⟨_, _, waiting, rfl⟩, rfl⟩ := attempted
    refine .inl (.of_group rfl fun other isActive => ?_)
    unfold Group.isActive at isActive ⊢
    rwa [activeRoles_setMembership (isActive_of_stateOf waiting (by decide))
      fun _ => by simp] at isActive
  | leave userId mustDissolve onlyAccepted elsewhere =>
    simp only [Household.attempt, leaveGroup, bind_eq_ok, refusing_eq_ok,
      exists_unit, Except.ok.injEq] at attempted
    obtain ⟨_, ⟨_, _, group, departed, _, rfl⟩, rfl⟩ := attempted
    have left := departed_of_depart departed
    exact .inl (later_departed (Departed.chain departed)
      (fun _ => left.fewer) fun _ => left.inactive)
  | delete userId listed elsewhere =>
    simp only [Household.attempt, bind_eq_ok, refusing_eq_ok,
      Except.ok.injEq] at attempted
    obtain ⟨group, deleted, rfl⟩ := attempted
    obtain ⟨chain, fewer, inactive⟩ := deleted_of_deleteAccount deleted
    exact .inl (later_departed chain fewer fun _ => inactive)
  | drive workspaceId write =>
    simp only [Household.attempt] at attempted
    split at attempted
    · next area found =>
        simp only [bind_eq_ok, refusing_eq_ok, Except.ok.injEq] at attempted
        obtain ⟨worked, written, rfl⟩ := attempted
        have keeps := worked_of_driveWrite written
        refine .inl (.of_areas fun other is isFound undeleted => ?_)
        rcases get?_set_cases isFound with ⟨rfl, rfl⟩ | ⟨_, was⟩
        · exact ⟨area, found, keeps.deleted.symm.trans undeleted,
            keeps.version.symm⟩
        · exact ⟨is, was, undeleted, rfl⟩
    · cases attempted
  | purge workspaceId =>
    simp only [Household.attempt] at attempted
    split at attempted
    · next area found =>
        split at attempted
        · cases attempted
          have kept : ∀ other is,
              (household.family.areas.erase workspaceId).get? other =
                some is →
              other ≠ workspaceId ∧
                household.family.areas.get? other = some is := by
            intro other is isFound
            rw [get?_erase] at isFound
            split at isFound
            · cases isFound
            · next differs => exact ⟨differs, isFound⟩
          refine .inl ⟨rfl, rfl, fun _ => id, ?_, ?_⟩
          · rintro other _ ⟨is, isFound, undeleted, rfl⟩
            exact ⟨is, (kept other is isFound).2, undeleted, rfl⟩
          · rintro other version userId ⟨is, isFound, _, _⟩ _ had
            obtain ⟨keyVersion, grant, stored⟩ := granted_iff.mp had
            refine granted_iff.mpr ⟨keyVersion, grant, ?_⟩
            exact (get?_keep _ _ _).trans ((if_pos (by
              simpa using (kept other is isFound).1)).trans stored)
        · cases attempted
    · cases attempted

/-- What a call read of the chain as it still is, and at least what is owed. -/
structure FamilyReading.Fresh (family : Family) (reading : FamilyReading) :
    Prop where
  chain : reading.members.chain = storedChain family.group
  ledger : reading.ledger = family.folders.ledger
  active : ∀ userId, family.group.isActive userId = true →
    userId ∈ reading.members.active
  areas : ∀ workspaceId version, family.Live workspaceId version →
    (workspaceId, version) ∈ reading.areas
  gaps : ∀ workspaceId userId, family.Gap workspaceId userId →
    (workspaceId, userId) ∈ reading.gaps

theorem FamilyReading.Fresh.later
    {before after : Family}
    {reading : FamilyReading}
    (fresh : reading.Fresh before)
    (later : Later before after) :
    reading.Fresh after where
  chain := fresh.chain.trans later.chain.symm
  ledger := by
    rw [fresh.ledger]
    simp only [Folders.ledger, Folders.rows, Family.folders, later.rosters]
  active userId isActive := fresh.active userId (later.fewer userId isActive)
  areas workspaceId version live :=
    fresh.areas workspaceId version (later.live workspaceId version live)
  gaps workspaceId userId gap := fresh.gaps workspaceId userId (later.gap gap)

/-- Every call under way whose chain still stands read what is owed. -/
def Household.Readied (household : Household) : Prop :=
  ∀ number reading, household.calls.get? number = some reading →
    reading.members.chain.revision ≤
        household.family.group.chainRevision ∧
      (reading.members.chain.revision =
        household.family.group.chainRevision →
          reading.Fresh household.family)

theorem fresh_read (family : Family) :
    FamilyReading.Fresh family
      { members :=
          { chain := storedChain family.group
            active := listActiveMemberIds family.group }
        ledger := family.folders.ledger
        areas := listAreas family
        gaps := missingGrants family } where
  chain := rfl
  ledger := rfl
  active _ isActive := mem_listActiveMemberIds.mpr isActive
  areas _ _ live := mem_listAreas.mpr live
  gaps _ _ gap := mem_missingGrants.mpr gap

theorem Household.Readied.reads
    (readied : household.Readied)
    (number : Nat)
    {change : FamilyReading → FamilyReading}
    (chain : ∀ reading,
      (change reading).members.chain = reading.members.chain)
    (fresh : ∀ reading, reading.Fresh household.family →
      (change reading).Fresh household.family) :
    (household.reads number change).Readied := by
  intro other reading found
  have updated : (household.calls.update (fun key _ => key = number)
      change).get? other = some reading := found
  rw [get?_update] at updated
  obtain ⟨was, isWas, rfl⟩ := Option.map_eq_some_iff.mp updated
  obtain ⟨behind, isFresh⟩ := readied other was isWas
  split
  · refine ⟨(chain was).symm ▸ behind, fun same => fresh was (isFresh ?_)⟩
    rw [← chain was]
    exact same
  · exact ⟨behind, isFresh⟩

/-- Recording a move leaves the household readied. -/
theorem Household.Readied.record
    (readied : household.Readied)
    (move : FamilyMove) :
    (household.record move).Readied := by
  cases move with
  | read number =>
    intro other reading found
    rcases get?_set_cases found with ⟨_, rfl⟩ | ⟨_, was⟩
    · exact ⟨le_rfl, fun _ => fresh_read household.family⟩
    · exact readied other reading was
  | listMembers number =>
    exact readied.reads number (fun _ => rfl) fun _ fresh =>
      { fresh with
        active := fun _ isActive => mem_listActiveMemberIds.mpr isActive }
  | listAreas number =>
    exact readied.reads number (fun _ => rfl) fun _ fresh =>
      { fresh with areas := fun _ _ live => mem_listAreas.mpr live }
  | listGaps number =>
    exact readied.reads number (fun _ => rfl) fun _ fresh =>
      { fresh with gaps := fun _ _ gap => mem_missingGrants.mpr gap }
  | _ => exact readied

theorem family_record (household : Household) (move : FamilyMove) :
    (household.record move).family = household.family := by
  cases move <;> rfl

/-- Every move leaves the household readied. -/
theorem Household.Readied.step
    (readied : household.Readied)
    (move : FamilyMove) :
    (household.step move).Readied := by
  have recorded := readied.record move
  have same := family_record household move
  unfold Household.step
  cases attempted : household.attempt move with
  | error =>
    exact recorded
  | ok after =>
    intro number reading found
    obtain ⟨behind, fresh⟩ := recorded number reading found
    rw [same] at behind fresh
    rcases later_or_next attempted with later | next
    · have revision : after.group.chainRevision =
          household.family.group.chainRevision :=
        congrArg StoredChain.revision later.chain
      refine ⟨revision.symm ▸ behind, fun isNow => ?_⟩
      exact (fresh (isNow.trans revision)).later later
    · refine ⟨?_, fun isNow => ?_⟩
      · dsimp only
        omega
      · dsimp only at isNow
        omega

theorem readied_run (family : Family) (moves : List FamilyMove) :
    ((Household.start family).run moves).Readied :=
  Runs.keeps_of_step Household.Readied (fun _ move readied => readied.step move)
    moves fun _ _ found => nomatch found

end

end Groups

end HushOS
