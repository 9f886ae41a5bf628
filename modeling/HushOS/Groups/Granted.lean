import HushOS.Groups.Owing

namespace HushOS

open Toolkit List OrderedMap

namespace Groups

/-!
# Everyone is granted what they are owed

A roster's call that is accepted leaves every member of the new head with a
grant of every live folder's current key, as long as it fills the gaps it lets
pass: a gap counts as filled by any grant of its folder, at whatever version.
Where a call owes more grants than it holds, who had a folder's key and stays is
left without the new one, unless the call is one that grants it to them.
-/

section Members

variable {group after : Group}
variable {reading : Reading}
variable {call : RosterCall}

/-- An accepted write projects its changes onto the memberships. -/
theorem projected_of_writeChain
    (written : writeChain group reading call = .ok after) :
    ∃ projected drops,
      applyRoster group.departures call.route
        (changesOf reading.chain.roster call.roster.val) group =
          .ok (projected, drops) ∧
      after.memberships = projected.memberships ∧
      after.head = call.roster.val := by
  obtain ⟨_, _, appended⟩ := writeChain_eq_ok written
  obtain ⟨_, _, rostered, ready, stored, first, second, third, rfl⟩ :=
    appendChain_eq_ok appended
  simp only [appendPart, chainInputOf, appendRoster, bind_eq_ok, exists_unit,
    refuseIf_eq_ok, not_not, Except.ok.injEq] at first
  obtain ⟨_, _, _, _, ⟨projected, drops⟩, applied, _, _, rfl⟩ := first
  refine ⟨projected, drops, applied, ?_⟩
  have rest := (stored_of_upsertSeals third).1.rest
  dsimp only
  rw [rest]
  unfold appendPart at second
  split at second
  · simp only [appendSuccession, bind_eq_ok, exists_unit,
      Except.ok.injEq] at second
    obtain ⟨_, rfl⟩ := second
    exact ⟨rfl, rfl⟩
  · cases second
    exact ⟨rfl, rfl⟩

variable {userId : String}

/-- A write makes no one active but the person it admits. -/
theorem active_of_writeChain
    (written : writeChain group reading call = .ok after)
    (isActive : after.isActive userId = true) :
    group.isActive userId = true ∨ call.route.admitted = some userId := by
  obtain ⟨projected, _, applied, memberships, _⟩ :=
    projected_of_writeChain written
  refine (applyRoster_eq_ok applied).2.1.active_before ?_
  rw [isActive_iff, stateOf, memberships] at isActive
  rwa [isActive_iff, stateOf]

/-- An active person the new roster lists stays active. -/
theorem stays_of_writeChain
    (written : writeChain group reading call = .ok after)
    (wasActive : group.isActive userId = true)
    (listed : active (rosterEntry call.roster.val userId) = true) :
    after.isActive userId = true := by
  obtain ⟨projected, _, applied, memberships, _⟩ :=
    projected_of_writeChain written
  obtain ⟨_, wrote, _⟩ := applyRoster_eq_ok applied
  rw [isActive_iff] at wasActive
  rw [isActive_iff, stateOf, memberships]
  by_cases changed : userId ∈
      (changesOf reading.chain.roster call.roster.val).map EntryChange.userId
  · obtain ⟨change, member, rfl⟩ := mem_map.mp changed
    obtain ⟨entry, inNext, status, _⟩ :=
      rosterEntry_of_change call.roster.property member
    have isActive : change.status = .active := by
      rw [inNext] at listed
      exact status.symm.trans (of_decide_eq_true listed)
    have outcome := wrote.outcome change member
    obtain ⟨membership, stored, _⟩ := stateOf_eq_some.mp wasActive
    generalize projected.memberships.get? change.userId = now at outcome ⊢
    cases outcome with
    | admitted =>
      rw [stored]
      rfl
    | removed _ isLeft _ =>
      exact absurd (isActive.symm.trans isLeft) (by decide)
    | marked _ isLeft _ =>
      exact absurd (isActive.symm.trans isLeft) (by decide)
    | kept _ _ _ state _ =>
      exact congrArg some state
    | changed _ _ _ state =>
      exact congrArg some state
  · rw [wrote.others userId changed]
    exact wasActive

/-- A person a write removes is not active after it. -/
theorem removed_of_writeChain
    (written : writeChain group reading call = .ok after)
    (removes : call.route = .remove userId)
    (wasActive : stateOf group.memberships userId = some .active) :
    after.isActive userId = false := by
  obtain ⟨projected, _, applied, memberships, _⟩ :=
    projected_of_writeChain written
  obtain ⟨_, wrote, _⟩ := applyRoster_eq_ok applied
  simp only [applyRoster, requireTarget, removes, ChainRoute.target,
    bind_eq_ok, exists_unit, refuseIf_eq_ok, not_not] at applied
  obtain ⟨_, changed, _⟩ := applied
  obtain ⟨change, member, rfl⟩ := mem_map.mp changed
  have outcome := wrote.outcome change member
  rw [isActive_eq_false, stateOf, memberships]
  generalize projected.memberships.get? change.userId = now at outcome ⊢
  cases outcome with
  | admitted admits _ =>
    exact absurd (removes.symm.trans admits) (by simp)
  | removed =>
    cases group.memberships.get? change.userId <;> simp
  | marked _ _ inactive =>
    exact inactive
  | kept removesOther =>
    exact absurd removes removesOther
  | changed removesOther =>
    exact absurd removes removesOther

end Members

section Folders

variable {folders after : Folders}
variable {call : FamilyCall}

/-- Every key row of the roster is among the keys the call brings. -/
theorem mem_keyed_of_row
    (accounted : Accounted folders call.folders)
    {row : RosterArea}
    (member : row ∈ call.members.roster.val.areas)
    (opens : row.retired = false) :
    (row.workspaceId, row.workspaceKeyVersion) ∈ call.keyed := by
  have expected := accounted.names.mem_iff.mp
    (mem_map_of_mem (f := fun row : RosterArea =>
      (row.workspaceId, row.workspaceKeyVersion, row.retired)) member)
  rw [opens] at expected
  simp only [expectedRows, FamilyCall.folders, mem_append, mem_map,
    Prod.mk.injEq, and_true, and_false, exists_false, or_false,
    Bool.true_eq_false] at expected
  rw [FamilyCall.keyed, mem_append, mem_map, mem_map]
  rcases expected with ⟨area, member, same, first⟩ |
    ⟨rotation, member, same, version⟩
  · exact .inr ⟨area, member, Prod.ext same first⟩
  · exact .inl ⟨rotation, member, Prod.ext same version⟩

theorem named_of_row
    (accounted : Accounted folders call.folders)
    {row : RosterArea}
    (member : row ∈ call.members.roster.val.areas) :
    row.workspaceId ∈ call.keyed.map Prod.fst ∨
      call.retireArea = some row.workspaceId := by
  have named := accounted.accounted member
  simp only [FamilyCall.folders, mem_append, Option.mem_toList] at named
  simp only [FamilyCall.keyed, map_append, map_map,
    Function.comp_def, mem_append]
  rcases named with (new | rotates) | gone
  · exact .inl (.inr new)
  · exact .inl (.inl rotates)
  · exact .inr gone

variable {workspaceId : String}

/-- Every area the call keys or retires has a row in the roster. -/
theorem row_of_named
    (accounted : Accounted folders call.folders)
    (named : workspaceId ∈ call.keyed.map Prod.fst ∨
      call.retireArea = some workspaceId) :
    ∃ row ∈ call.members.roster.val.areas, row.workspaceId = workspaceId := by
  have listed : ∃ version retired, (workspaceId, version, retired) ∈
      expectedRows folders.ledger call.folders := by
    simp only [expectedRows, FamilyCall.folders, mem_append, mem_map,
      Option.mem_toList, Prod.mk.injEq]
    rcases named with keyed | gone
    · simp only [FamilyCall.keyed, map_append, map_map,
        mem_append, mem_map, Function.comp_def] at keyed
      rcases keyed with ⟨rotation, member, rfl⟩ | ⟨area, member, rfl⟩
      · exact ⟨_, _, .inl (.inr ⟨rotation, member, rfl, rfl, rfl⟩)⟩
      · exact ⟨_, _, .inl (.inl ⟨area, Option.mem_toList.mp member, rfl,
          rfl, rfl⟩)⟩
    · exact ⟨_, _, .inr ⟨workspaceId, gone, rfl, rfl, rfl⟩⟩
  obtain ⟨version, retired, expected⟩ := listed
  obtain ⟨row, member, mine, _⟩ := accounted.listed _ expected
  exact ⟨row, member, mine⟩

/-- A live area is keyed by the call or is as it was. -/
theorem keyed_or_same
    (accounted : Accounted folders call.folders)
    (appended : appendFolders folders call.folders = .ok after)
    {area : Area}
    (live : after.Live workspaceId area) :
    (workspaceId, area.workspaceKeyVersion) ∈ call.keyed ∨
      (workspaceId ∉ call.keyed.map Prod.fst ∧
        call.retireArea ≠ some workspaceId ∧
        folders.Live workspaceId area) := by
  obtain ⟨_, landed, _⟩ := landed_of_append accounted appended
  cases landed workspaceId with
  | @keyed row found member mine opens isFound version _ _ =>
    have same : found = area :=
      Option.some.inj (isFound.1.symm.trans live.1)
    subst same
    have keyed := mem_keyed_of_row accounted member opens
    rw [mine, ← version] at keyed
    exact .inl keyed
  | retired _ _ _ dead =>
    exact absurd live (dead area)
  | same unlisted still =>
    have unnamed : ¬ (workspaceId ∈ call.keyed.map Prod.fst ∨
        call.retireArea = some workspaceId) := by
      intro named
      obtain ⟨row, member, mine⟩ := row_of_named accounted named
      exact unlisted row member mine
    exact .inr ⟨fun keyed => unnamed (.inl keyed),
      fun gone => unnamed (.inr gone), still.symm.trans live.1, live.2⟩

/-- A folder a call gives a key to is live at that key's version after it. -/
theorem live_of_keyed
    (accounted : Accounted folders call.folders)
    (appended : appendFolders folders call.folders = .ok after)
    {version : Nat}
    (keyed : (workspaceId, version) ∈ call.keyed) :
    ∃ area, after.Live workspaceId area ∧
      area.workspaceKeyVersion = version := by
  have expected : (workspaceId, version, false) ∈
      expectedRows folders.ledger call.folders := by
    simp only [FamilyCall.keyed, mem_append, mem_map,
      Prod.mk.injEq] at keyed
    simp only [expectedRows, FamilyCall.folders, mem_append, mem_map]
    rcases keyed with ⟨rotation, member, rfl, rfl⟩ | ⟨area, member, rfl, rfl⟩
    · exact .inl (.inr ⟨rotation, member, rfl⟩)
    · exact .inl (.inl ⟨area, member, rfl⟩)
  obtain ⟨row, member, mine, isVersion, opens⟩ := accounted.listed _ expected
  have once : (call.members.roster.val.areas.map
      RosterArea.workspaceId).Nodup := by
    refine List.Pairwise.imp ?_ call.members.roster.property.areas_sorted
    rintro first second before rfl
    exact Before.irrefl _ before
  obtain ⟨_, landed, _⟩ := landed_of_append accounted appended
  cases landed workspaceId with
  | @keyed other area otherMember otherMine _ found isOther _ _ =>
    have same := inj_on_of_nodup_map once otherMember member
      (otherMine.trans mine.symm)
    exact ⟨area, found, isOther.trans (same ▸ isVersion)⟩
  | retired otherMember otherMine closes _ =>
    have same := inj_on_of_nodup_map once otherMember member
      (otherMine.trans mine.symm)
    rw [same] at closes
    exact absurd (opens.symm.trans closes) Bool.false_ne_true
  | same unlisted _ =>
    exact absurd mine (unlisted row member)

theorem live_of_unnamed
    (accounted : Accounted folders call.folders)
    (appended : appendFolders folders call.folders = .ok after)
    {area : Area}
    (live : folders.Live workspaceId area)
    (unkeyed : workspaceId ∉ call.keyed.map Prod.fst)
    (kept : call.retireArea ≠ some workspaceId) :
    after.Live workspaceId area := by
  obtain ⟨_, landed, _⟩ := landed_of_append accounted appended
  have unlisted : ∀ row ∈ call.members.roster.val.areas,
      row.workspaceId ≠ workspaceId := by
    rintro row member rfl
    exact (named_of_row accounted member).elim unkeyed kept
  cases landed workspaceId with
  | keyed member mine =>
    exact absurd mine (unlisted _ member)
  | retired member mine =>
    exact absurd mine (unlisted _ member)
  | same _ still =>
    exact ⟨still.trans live.1, live.2⟩

end Folders

/-- A grant row holds what the call wrote there, or what it held. -/
theorem get?_upsertGrants
    {uploader : String}
    {grants : List GrantInput}
    {family after : Family}
    (stored : upsertGrants uploader true grants family = .ok after)
    (row : GrantRow) :
    after.grants.get? row =
      (grants.find? fun grant => grant.row = row).elim
        (family.grants.get? row) some := by
  simp only [upsertGrants, bind_eq_ok, exists_unit, refuseIf_eq_ok, not_not,
    Bool.true_or, filter_true, Except.ok.injEq] at stored
  obtain ⟨_, once, rfl⟩ := stored
  have writes : ∀ (table : OrderedMap GrantRow GrantInput)
      (grant : GrantInput) (at_ : GrantRow),
      (putGrant uploader true table grant).get? at_ =
        if at_ = grant.row then some grant else table.get? at_ := by
    intro table grant at_
    unfold putGrant
    rw [if_neg (by simp)]
    exact get?_set _ _ _ _
  exact Runs.read_run (fun table at_ => OrderedMap.get? table at_)
    (fun grant _ => some grant) writes once family.grants row

section Written

variable {family after : Family}
variable {reading : FamilyReading}
variable {call : FamilyCall}

/-- What a roster's call that is written read, checked and wrote. -/
structure Written
    (family : Family)
    (reading : FamilyReading)
    (call : FamilyCall)
    (after : Family) : Prop where
  head : after.group.head = call.members.roster.val
  fresh : reading.Fresh family
  active : ∀ userId, after.group.isActive userId = true →
    family.group.isActive userId = true ∨
      call.members.route.admitted = some userId
  stays : ∀ userId, family.group.isActive userId = true →
    HushOS.active (rosterEntry call.members.roster.val userId) = true →
      after.group.isActive userId = true
  lives : ∀ workspaceId version, after.Live workspaceId version →
    (workspaceId, version) ∈ call.keyed ∨
      (workspaceId ∉ call.keyed.map Prod.fst ∧
        call.retireArea ≠ some workspaceId ∧
        family.Live workspaceId version)
  still : ∀ workspaceId version, family.Live workspaceId version →
    workspaceId ∉ call.keyed.map Prod.fst →
    call.retireArea ≠ some workspaceId → after.Live workspaceId version
  keys : ∀ workspaceId version, (workspaceId, version) ∈ call.keyed →
    after.Live workspaceId version
  owed : (call.owed reading).length ≤ MAX_GRANTS_PER_CALL →
    ∀ one ∈ call.owed reading, ∃ grant ∈ call.grants, grant.gives = one
  paid : ∀ workspaceId userId, (workspaceId, userId) ∈ reading.gaps →
    workspaceId ∉ call.keyed.map Prod.fst →
    call.retireArea ≠ some workspaceId →
      ∃ grant ∈ call.grants, grant.workspaceId = workspaceId ∧
        grant.granteeUserId = userId
  given : ∀ grant ∈ call.grants, ∃ stored,
    after.grants.get? grant.row = some stored
  rows : ∀ row : GrantRow, after.group.isActive row.2.2.1 = true →
    after.grants.get? row = family.grants.get? row ∨
      ∃ grant ∈ call.grants, grant.row = row ∧
        after.grants.get? row =
          some { grant with granterUserId := call.members.uploader }

theorem revokeRemoved_same
    (family : Family)
    (route : ChainRoute) :
    (revokeRemoved family route).group = family.group ∧
      (revokeRemoved family route).rosters = family.rosters ∧
      ∀ workspaceId version,
        (revokeRemoved family route).Live workspaceId version ↔
          family.Live workspaceId version := by
  unfold revokeRemoved
  split
  · split
    · exact ⟨rfl, rfl, fun _ _ => live_revoke⟩
    · exact ⟨rfl, rfl, fun _ _ => Iff.rfl⟩
  · exact ⟨rfl, rfl, fun _ _ => Iff.rfl⟩

theorem live_iff_folders
    {workspaceId : String}
    {version : Nat} :
    family.Live workspaceId version ↔
      ∃ area, family.folders.Live workspaceId area ∧
        area.workspaceKeyVersion = version := by
  constructor
  · rintro ⟨area, found, undeleted, version⟩
    exact ⟨area, ⟨found, undeleted⟩, version⟩
  · rintro ⟨area, ⟨found, undeleted⟩, version⟩
    exact ⟨area, found, undeleted, version⟩

/-- The check passes for owed grants within the cap and for gaps. -/
theorem requireGrantsOwed_eq_ok
    {head : Roster}
    {keyed : List (String × Nat)}
    {grants : List GrantWire}
    {admitted retiring : Option String}
    (required : requireGrantsOwed head keyed grants admitted retiring
      reading = .ok ()) :
    ((owedOf head keyed admitted reading.members.active
          reading.areas).length ≤ MAX_GRANTS_PER_CALL →
        ∀ one ∈ owedOf head keyed admitted reading.members.active
          reading.areas, ∃ grant ∈ grants, grant.gives = one) ∧
      ∀ workspaceId userId, (workspaceId, userId) ∈ reading.gaps →
        workspaceId ∉ keyed.map Prod.fst → retiring ≠ some workspaceId →
          ∃ grant ∈ grants, grant.workspaceId = workspaceId ∧
            grant.granteeUserId = userId := by
  simp only [requireGrantsOwed, bind_eq_ok, exists_unit, refuseIf_eq_ok,
    not_and, not_not] at required
  obtain ⟨covers, pays⟩ := required
  constructor
  · intro fits one member
    by_contra ungiven
    refine covers ?_ (.inl fits)
    refine ne_nil_of_mem (mem_filter.mpr ⟨member, ?_⟩)
    simpa using ungiven
  · intro workspaceId userId gap unkeyed kept
    by_contra ungiven
    have unpaid := filter_eq_nil_iff.mp pays _ gap
    refine unpaid ?_
    simp only [Bool.and_eq_true, decide_eq_true_eq, Bool.not_eq_true',
      any_eq_false, not_and]
    refine ⟨⟨kept, fun area member same => ?_⟩, fun grant member => ?_⟩
    · exact unkeyed (mem_map.mpr ⟨area, member, same⟩)
    · exact fun area user => ungiven ⟨grant, member, area, user⟩

theorem checkGrants_eq_ok
    {head : Roster}
    {ledger : AreaLedger}
    {uploader : String}
    {grants : List GrantWire}
    {given : List GrantInput}
    (checked : checkGrants head ledger uploader grants = .ok given) :
    given = grants.map fun grant =>
      { grant with granterUserId := uploader } := by
  simp only [checkGrants, bind_eq_ok, exists_unit, Except.ok.injEq] at checked
  exact checked.2.2.symm

/-- An accepted write on a fresh reading is one that was written. -/
theorem written_of_writeFamily
    (current : reading.members.chain.revision = family.group.chainRevision →
      reading.Fresh family)
    (accepted : writeFamily family reading call = .ok after) :
    Written family reading call after := by
  simp only [writeFamily, bind_eq_ok, exists_unit, refusing_eq_ok] at accepted
  obtain ⟨_, group, wrote, folders, filed, grants, checked, required,
    stored⟩ := accepted
  have same : after.group = group := (later_upsertGrants stored).2
  obtain ⟨_, _, _, _, head⟩ := projected_of_writeChain wrote
  obtain ⟨_, isChecked, appended⟩ := writeChain_eq_ok wrote
  have fresh : reading.Fresh family :=
    current (isChecked.revision.trans (appendChain_eq_ok appended).2.1.symm)
  obtain ⟨sameGroup, sameRosters, sameLive⟩ :=
    revokeRemoved_same family call.members.route
  obtain ⟨accounted, appendedFolders⟩ := writeFolders_eq_ok
    (fun _ => ⟨by
      rw [FamilyReading.folders, fresh.chain, Family.folders, sameGroup]
      rfl, by
      rw [FamilyReading.folders, fresh.ledger]
      simp only [Folders.ledger, Folders.rows, Family.folders,
        sameRosters]⟩) filed
  obtain ⟨owed, paid⟩ := requireGrantsOwed_eq_ok required
  have found := get?_upsertGrants stored
  rw [checkGrants_eq_ok checked] at found
  have areas : after.areas = folders.areas := by
    simp only [upsertGrants, bind_eq_ok, exists_unit,
      Except.ok.injEq] at stored
    obtain ⟨_, _, rfl⟩ := stored
    rfl
  have lives : ∀ workspaceId version, after.Live workspaceId version ↔
      ∃ area, folders.Live workspaceId area ∧
        area.workspaceKeyVersion = version := by
    intro workspaceId version
    rw [live_iff_folders]
    simp only [Folders.Live, Family.folders, areas]
  have kept : ∀ row : GrantRow, after.group.isActive row.2.2.1 = true →
      (revokeRemoved family call.members.route).grants.get? row =
        family.grants.get? row := by
    intro row isActive
    rw [same] at isActive
    unfold revokeRemoved
    split
    · next userId removes =>
        split
        · next wasActive =>
            refine get?_revoke ?_
            rintro rfl
            have gone := removed_of_writeChain wrote removes wasActive
            exact absurd (gone.symm.trans isActive) Bool.false_ne_true
        · rfl
    · rfl
  refine {
    head := by rw [same]; exact head
    fresh := fresh
    active := fun userId isActive => active_of_writeChain wrote (same ▸ isActive)
    stays := fun userId wasActive listed => by
      rw [same]
      exact stays_of_writeChain wrote wasActive listed
    lives := ?_
    still := ?_
    keys := ?_
    owed := owed
    paid := paid
    given := ?_
    rows := ?_ }
  · intro workspaceId version live
    obtain ⟨area, isLive, rfl⟩ := (lives workspaceId version).mp live
    rcases keyed_or_same accounted appendedFolders isLive with
      keyed | ⟨unkeyed, unretired, before⟩
    · exact .inl keyed
    · exact .inr ⟨unkeyed, unretired, (sameLive _ _).mp
        (live_iff_folders.mpr ⟨area, before, rfl⟩)⟩
  · intro workspaceId version live unkeyed unretired
    obtain ⟨area, isLive, rfl⟩ :=
      live_iff_folders.mp ((sameLive workspaceId version).mpr live)
    exact (lives _ _).mpr ⟨area, live_of_unnamed accounted appendedFolders
      isLive unkeyed unretired, rfl⟩
  · intro workspaceId version keyed
    exact (lives _ _).mpr (live_of_keyed accounted appendedFolders keyed)
  · intro grant member
    rw [found]
    cases isFound : (call.grants.map fun grant =>
        ({ grant with granterUserId := call.members.uploader } :
          GrantInput)).find? fun other => other.row = grant.row with
    | some other =>
      exact ⟨other, rfl⟩
    | none =>
      have none_ := find?_eq_none.mp isFound
        { grant with granterUserId := call.members.uploader }
        (mem_map_of_mem member)
      simp [GrantWire.row] at none_
  · intro row isActive
    rw [found]
    cases isFound : (call.grants.map fun grant =>
        ({ grant with granterUserId := call.members.uploader } :
          GrantInput)).find? fun other => other.row = row with
    | some other =>
      obtain ⟨grant, member, rfl⟩ :=
        mem_map.mp (mem_of_find?_eq_some isFound)
      exact .inr ⟨grant, member,
        of_decide_eq_true (find?_eq_some_iff_append.mp isFound).1, rfl⟩
    | none =>
      exact .inl (kept row isActive)

/-- After a write a person has the grants from before and the call's. -/
theorem Written.granted_iff
    (is : Written family reading call after)
    {workspaceId userId : String}
    {version : Nat}
    (isActive : after.group.isActive userId = true) :
    after.granted workspaceId version userId = true ↔
      family.granted workspaceId version userId = true ∨
        ∃ grant ∈ call.grants, grant.gives =
          (workspaceId, version, userId) := by
  constructor
  · intro had
    obtain ⟨keyVersion, grant, found⟩ := Groups.granted_iff.mp had
    rcases is.rows (workspaceId, version, userId, keyVersion) isActive with
      same | ⟨given, member, isRow, _⟩
    · exact .inl (Groups.granted_iff.mpr
        ⟨keyVersion, grant, same.symm.trans found⟩)
    · simp only [GrantWire.row, Prod.mk.injEq] at isRow
      obtain ⟨rfl, rfl, rfl, _⟩ := isRow
      exact .inr ⟨given, member, rfl⟩
  · rintro (had | ⟨grant, member, isGiven⟩)
    · obtain ⟨keyVersion, grant, found⟩ := Groups.granted_iff.mp had
      refine Groups.granted_iff.mpr ⟨keyVersion, ?_⟩
      rcases is.rows (workspaceId, version, userId, keyVersion) isActive with
        same | ⟨given, _, _, there⟩
      · exact ⟨grant, same.trans found⟩
      · exact ⟨_, there⟩
    · simp only [GrantWire.gives, Prod.mk.injEq] at isGiven
      obtain ⟨rfl, rfl, rfl⟩ := isGiven
      exact Groups.granted_iff.mpr
        ⟨grant.granteeKeyVersion, is.given grant member⟩

end Written

/-- Every active member on the head has a grant of every live folder's key. -/
def Family.EveryoneGranted (family : Family) : Prop :=
  ∀ workspaceId version userId, family.Live workspaceId version →
    family.group.isActive userId = true →
    active (rosterEntry family.group.head userId) = true →
      family.granted workspaceId version userId = true

/--
A call that grants anything of a folder to a member who lacks its current key
grants them that key.  Folders it gives a key to or deletes, and members its
roster does not keep, apart.
-/
def Family.FillsGaps (family : Family) (call : FamilyCall) : Prop :=
  ∀ workspaceId version userId, family.Live workspaceId version →
    family.group.isActive userId = true →
    family.granted workspaceId version userId = false →
    workspaceId ∉ call.keyed.map Prod.fst →
    call.retireArea ≠ some workspaceId →
    active (rosterEntry call.members.roster.val userId) = true →
    (∃ grant ∈ call.grants, grant.workspaceId = workspaceId ∧
      grant.granteeUserId = userId) →
      ∃ grant ∈ call.grants, grant.gives = (workspaceId, version, userId)

/--
Whoever had the current key of a live folder, and stays active, has a grant of
the one it has after.
-/
def Family.StayersGranted (before after : Family) : Prop :=
  ∀ workspaceId version now userId, before.Live workspaceId version →
    before.granted workspaceId version userId = true →
    before.group.isActive userId = true →
    after.group.isActive userId = true →
    active (rosterEntry after.group.head userId) = true →
    after.Live workspaceId now → after.granted workspaceId now userId = true

/--
A call that owes more grants than one holds carries, of each key it gives a
live folder, the grant of everyone who had its key and whom its roster keeps.
-/
def Family.CoversStayers
    (family : Family)
    (reading : FamilyReading)
    (call : FamilyCall) : Prop :=
  MAX_GRANTS_PER_CALL < (call.owed reading).length →
    ∀ workspaceId version now userId, family.Live workspaceId version →
      (workspaceId, now) ∈ call.keyed →
      family.granted workspaceId version userId = true →
      family.granted workspaceId now userId = false →
      family.group.isActive userId = true →
      active (rosterEntry call.members.roster.val userId) = true →
        ∃ grant ∈ call.grants, grant.gives = (workspaceId, now, userId)

section Everyone

variable {family after : Family}
variable {reading : FamilyReading}
variable {call : FamilyCall}

/-- An active person who is listed is among those who remain. -/
theorem Written.remains
    (is : Written family reading call after)
    {userId : String}
    (isActive : after.group.isActive userId = true)
    (listed : HushOS.active (rosterEntry after.group.head userId) = true) :
    userId ∈ remainingOf call.members.roster.val
      call.members.route.admitted reading.members.active := by
  rw [is.head] at listed
  cases found : rosterEntry call.members.roster.val userId with
  | none =>
    rw [found] at listed
    cases listed
  | some entry =>
    rw [found] at listed
    have mine := userId_of_rosterEntry found
    refine mem_map.mpr ⟨entry, mem_filter.mpr
      ⟨mem_of_rosterEntry found, ?_⟩, mine⟩
    rw [listed, Bool.true_and, mine, Bool.or_eq_true, contains_iff_mem,
      decide_eq_true_eq]
    exact (is.active userId isActive).imp_left (is.fresh.active userId)

theorem Written.granted_of_keyed
    (is : Written family reading call after)
    (fits : (call.owed reading).length ≤ MAX_GRANTS_PER_CALL)
    {workspaceId userId : String}
    {version : Nat}
    (keyed : (workspaceId, version) ∈ call.keyed)
    (isActive : after.group.isActive userId = true)
    (listed : HushOS.active (rosterEntry after.group.head userId) = true) :
    after.granted workspaceId version userId = true := by
  refine (is.granted_iff isActive).mpr (.inr (is.owed fits _ ?_))
  unfold FamilyCall.owed owedOf
  rw [mem_append]
  exact .inl (mem_flatMap.mpr ⟨_, keyed, mem_map.mpr
    ⟨userId, is.remains isActive listed, rfl⟩⟩)

/-- The person admitted is granted every live area within the cap. -/
theorem Written.granted_of_admitted
    (is : Written family reading call after)
    (fits : (call.owed reading).length ≤ MAX_GRANTS_PER_CALL)
    {workspaceId userId : String}
    {version : Nat}
    (live : family.Live workspaceId version)
    (unkeyed : workspaceId ∉ call.keyed.map Prod.fst)
    (isActive : after.group.isActive userId = true)
    (admitted : call.members.route.admitted = some userId) :
    after.granted workspaceId version userId = true := by
  refine (is.granted_iff isActive).mpr (.inr (is.owed fits _ ?_))
  unfold FamilyCall.owed owedOf
  rw [admitted, mem_append]
  refine .inr (mem_map.mpr ⟨(workspaceId, version),
    mem_filter.mpr ⟨is.fresh.areas _ _ live, ?_⟩, rfl⟩)
  simp only [Bool.not_eq_true', any_eq_false, decide_eq_true_eq]
  exact fun area member same =>
    unkeyed (mem_map.mpr ⟨area, member, same⟩)

/-- A call within the cap that fills its gaps grants everyone. -/
theorem Written.everyone_of_fills
    (is : Written family reading call after)
    (fits : (call.owed reading).length ≤ MAX_GRANTS_PER_CALL)
    (fills : family.FillsGaps call) :
    after.EveryoneGranted := by
  intro workspaceId version userId live isActive listed
  rcases is.lives workspaceId version live with
    keyed | ⟨unkeyed, kept, before⟩
  · exact is.granted_of_keyed fits keyed isActive listed
  · rcases is.active userId isActive with wasActive | admitted
    · cases had : family.granted workspaceId version userId with
      | true =>
        exact (is.granted_iff isActive).mpr (.inl had)
      | false =>
        have gap := is.fresh.gaps workspaceId userId
          ⟨version, before, wasActive, had⟩
        have some_ := is.paid workspaceId userId gap unkeyed kept
        rw [is.head] at listed
        exact (is.granted_iff isActive).mpr (.inr
          (fills workspaceId version userId before wasActive had unkeyed
            kept listed some_))
    · exact is.granted_of_admitted fits before unkeyed isActive admitted

theorem Written.fills_of_everyone
    (is : Written family reading call after)
    (everyone : after.EveryoneGranted) :
    family.FillsGaps call := by
  intro workspaceId version userId live wasActive had unkeyed kept listed _
  have isActive := is.stays userId wasActive listed
  have granted := everyone workspaceId version userId
    (is.still workspaceId version live unkeyed kept) isActive
    (by rw [is.head]; exact listed)
  rcases (is.granted_iff isActive).mp granted with before | given
  · exact absurd (had.symm.trans before) Bool.false_ne_true
  · exact given

/-- Who stays has the new keys, where the call fits or covers them. -/
theorem Written.stayers_of_covers
    (is : Written family reading call after)
    (covers : family.CoversStayers reading call) :
    family.StayersGranted after := by
  intro workspaceId version now userId live had wasActive isActive listed isNow
  rcases is.lives workspaceId now isNow with keyed | ⟨_, _, isBefore⟩
  · by_cases fits : (call.owed reading).length ≤ MAX_GRANTS_PER_CALL
    · exact is.granted_of_keyed fits keyed isActive listed
    · refine (is.granted_iff isActive).mpr ?_
      cases hadNow : family.granted workspaceId now userId with
      | true =>
        exact .inl rfl
      | false =>
        rw [is.head] at listed
        exact .inr (covers (Nat.lt_of_not_le fits) workspaceId version now
          userId live keyed had hadNow wasActive listed)
  · obtain ⟨first, isFirst, _, rfl⟩ := live
    obtain ⟨second, isSecond, _, rfl⟩ := isBefore
    rw [isFirst] at isSecond
    cases isSecond
    exact (is.granted_iff isActive).mpr (.inl had)

/-- A call after which who stays has the new keys fits, or covers them. -/
theorem Written.covers_of_stayers
    (is : Written family reading call after)
    (stayers : family.StayersGranted after) :
    family.CoversStayers reading call := by
  intro _ workspaceId version now userId live keyed had hadNow wasActive listed
  have isActive := is.stays userId wasActive listed
  have granted := stayers workspaceId version now userId live had wasActive
    isActive (by rw [is.head]; exact listed) (is.keys workspaceId now keyed)
  rcases (is.granted_iff isActive).mp granted with before | given
  · exact absurd (hadNow.symm.trans before) Bool.false_ne_true
  · exact given

end Everyone

/--
Whatever came between what a roster's call read and its write: where what it
owes fits in one call, every active member on the new head has a grant of every
live folder's current key after it exactly if it fills the gaps it lets pass;
whoever had a folder's key and stays has its current one after it exactly if
what it owes fits or it grants them the new one; and no grant of anyone active
is lost, each row there as it was or as the call itself replaced it.
-/
theorem everyone_granted_iff
    (family : Family)
    (moves : List FamilyMove)
    (number : Nat)
    (call : FamilyCall)
    (reading : FamilyReading)
    (after : Family)
    (found : ((Household.start family).run moves).calls.get? number =
      some reading)
    (accepted : ((Household.start family).run moves).attempt
      (.write number call) = .ok after) :
    let before := ((Household.start family).run moves).family
    ((call.owed reading).length ≤ MAX_GRANTS_PER_CALL →
      (after.EveryoneGranted ↔ before.FillsGaps call)) ∧
    (before.StayersGranted after ↔ before.CoversStayers reading call) ∧
    (∀ (row : GrantRow) grant, before.grants.get? row = some grant →
      after.group.isActive row.2.2.1 = true →
        after.grants.get? row = some grant ∨
          ∃ given ∈ call.grants, given.row = row ∧
            after.grants.get? row =
              some { given with granterUserId := call.members.uploader }) ∧
    ∀ workspaceId version userId,
      before.granted workspaceId version userId = true →
      after.group.isActive userId = true →
        after.granted workspaceId version userId = true := by
  intro before
  have readied := readied_run family moves
  simp only [Household.attempt, found] at accepted
  have is := written_of_writeFamily (readied number reading found).2 accepted
  refine ⟨fun fits => ⟨is.fills_of_everyone, is.everyone_of_fills fits⟩,
    ⟨is.covers_of_stayers, is.stayers_of_covers⟩, ?_, ?_⟩
  · intro row grant had isActive
    exact (is.rows row isActive).imp_left fun same => same.trans had
  · intro workspaceId version userId had isActive
    exact (is.granted_iff isActive).mpr (.inl had)

section Gap

/-- The founder and a member, whose folder has its second key. -/
def rekeyedRoster : Roster :=
  toyRoster 2
    [founder, toyEntry sampleMember 1 .active [] 1]
    [⟨sampleArea, 2, bytesText 32 102, some (bytesText 32 202), false⟩]

/-- A family whose member has the folder's first key and not its second. -/
def familyWithGap : Family where
  group :=
    { head := rekeyedRoster
      rosterDigest := bytesText 32 2
      groupKeyVersion := 1
      chainRevision := 2
      successionDue := false
      dissolved := false
      memberships := (OrderedMap.empty.set sampleOwner
        { state := .active, roles := [.billing, .members]
          invitationRoles := [] }).set sampleMember
        { state := .active, roles := [], invitationRoles := [] }
      departures := .empty
      seals := .empty }
  rosters :=
    [toyRoster 1 [founder, toyEntry sampleMember 1 .active [] 1]
      [⟨sampleArea, 1, bytesText 32 101, some (bytesText 32 201), false⟩],
      rekeyedRoster]
  areas := OrderedMap.empty.set sampleArea
    { workspaceKeyVersion := 2
      deleted := false
      keyEpochSeq := 2
      changeSeq := 2
      root :=
        { id := "root", keyEpoch := 2, parentKeyEpoch := 2
          keyEnvelope := "root key 2", prevKeyEnvelope := none
          prevKeyEpoch := none, prevParentKeyEpoch := none, changeSeq := 2 }
      otherNodes := .empty
      selfGrants := .empty
      documents := .empty
      running := none }
  grants := [(sampleOwner, 1), (sampleOwner, 2), (sampleMember, 1)].foldl
    (fun grants (userId, version) =>
      grants.set (sampleArea, version, userId, 1)
        { workspaceId := sampleArea, workspaceKeyVersion := version
          granteeUserId := userId, granteeKeyVersion := 1
          rosterVersion := version, rosterDigest := bytesText 32 version
          envelope := "grant", granterUserId := sampleOwner })
    .empty

/-- The member's new key folded in. -/
def foldedIn : ReadRoster where
  val := toyRoster 3 [founder, toyEntry sampleMember 2 .active [] 3] []
  property := by
    refine toyRoster_valid (by decide) (by decide) (by simp) (by decide) ?_
      (by decide) (by decide) (by simp) (by decide)
    intro entry member
    simp only [mem_cons, not_mem_nil, or_false] at member
    rcases member with rfl | rfl <;>
      exact toyEntry_valid (by decide) (by decide) (by decide) (by decide)
        (by decide) (by decide) (by decide) (by decide)

/-- The call that folds it in, with one grant of the folder to the member. -/
def foldsIn (version : Nat) : FamilyCall where
  members :=
    { uploader := sampleOwner
      expectedRevision := 2
      route := .roster
      roster := foldedIn
      digest := bytesText 32 3
      succession := none
      seals := []
      elsewhere := false }
  newArea := none
  retireArea := none
  rotations := []
  grants :=
    [{ workspaceId := sampleArea, workspaceKeyVersion := version
       granteeUserId := sampleMember, granteeKeyVersion := 2
       rosterVersion := 3, rosterDigest := bytesText 32 3
       envelope := "grant to the new key" }]

/-- The call as it is under way. -/
def foldingIn : Household :=
  (Household.start familyWithGap).run [.read 1]

/-- Whether a call is written, its owed grants fitting, with this grant had. -/
def leavesGranted (version : Nat) (granted : Bool) : Bool :=
  match foldingIn.calls.get? 1, foldingIn.attempt (.write 1 (foldsIn version))
  with
  | some reading, .ok after =>
    ((foldsIn version).owed reading).length ≤ MAX_GRANTS_PER_CALL &&
      (listAreas after).contains (sampleArea, 2) &&
      after.group.isActive sampleMember &&
      active (rosterEntry after.group.head sampleMember) &&
      after.granted sampleArea 2 sampleMember == granted
  | _, _ => false

/-- The computed check gives the sample call that was written. -/
theorem written_of_leavesGranted
    {version : Nat}
    {granted : Bool}
    (computed : leavesGranted version granted = true) :
    ∃ reading after, foldingIn.calls.get? 1 = some reading ∧
      foldingIn.attempt (.write 1 (foldsIn version)) = .ok after ∧
      ((foldsIn version).owed reading).length ≤ MAX_GRANTS_PER_CALL ∧
      after.Live sampleArea 2 ∧
      after.group.isActive sampleMember = true ∧
      active (rosterEntry after.group.head sampleMember) = true ∧
      after.granted sampleArea 2 sampleMember = granted := by
  unfold leavesGranted at computed
  split at computed
  · next reading after found written =>
      simp only [Bool.and_eq_true, decide_eq_true_eq, contains_iff_mem,
        beq_iff_eq, mem_listAreas] at computed
      obtain ⟨⟨⟨⟨fits, live⟩, isActive⟩, listed⟩, had⟩ := computed
      exact ⟨reading, after, found, written, fits, live, isActive, listed,
        had⟩
  · cases computed

/-- Given the first key again, the member still lacks the second. -/
theorem gap_stays_open :
    ∃ reading after, foldingIn.calls.get? 1 = some reading ∧
      foldingIn.attempt (.write 1 (foldsIn 1)) = .ok after ∧
      ((foldsIn 1).owed reading).length ≤ MAX_GRANTS_PER_CALL ∧
      ¬ after.EveryoneGranted := by
  obtain ⟨reading, after, found, written, fits, live, isActive, listed,
    had⟩ := written_of_leavesGranted (by decide : leavesGranted 1 false = true)
  refine ⟨reading, after, found, written, fits, fun everyone => ?_⟩
  have granted := everyone sampleArea 2 sampleMember live isActive listed
  exact absurd (had.symm.trans granted) Bool.false_ne_true

/-- Given the second, everyone has what they are owed. -/
theorem everyone_granted_iff_filled :
    ∃ after, foldingIn.attempt (.write 1 (foldsIn 2)) = .ok after ∧
      after.EveryoneGranted ∧ foldingIn.family.StayersGranted after := by
  obtain ⟨reading, after, found, written, fits, _⟩ :=
    written_of_leavesGranted (by decide : leavesGranted 2 true = true)
  obtain ⟨everyone, stayers, _⟩ := everyone_granted_iff familyWithGap
    [.read 1] 1 (foldsIn 2) reading after found written
  refine ⟨after, written, (everyone fits).mpr ?_,
    stayers.mpr fun overfull => absurd fits (Nat.not_le.mpr overfull)⟩
  rintro workspaceId version userId live _ _ _ _ _ ⟨grant, member, rfl, rfl⟩
  rw [show (foldsIn 2).grants = [_] from rfl, mem_singleton] at member
  subst member
  refine ⟨_, mem_cons_self, ?_⟩
  obtain ⟨area, isArea, _, rfl⟩ := live
  have same : foldingIn.family.areas.get? sampleArea = some area := isArea
  have versions : (foldingIn.family.areas.get? sampleArea).map
      Area.workspaceKeyVersion = some 2 := by decide
  rw [same] at versions
  exact congrArg (fun version => (sampleArea, version, sampleMember))
    (Option.some.inj versions).symm

end Gap

end Groups

end HushOS
