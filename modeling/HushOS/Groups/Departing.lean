import HushOS.Groups.Agreement

namespace HushOS

open Toolkit List OrderedMap

namespace Groups

/-!
# Departures

What changes memberships with no roster: acceptances, declines, departures and
account deletions.  Each keeps that the chain and the memberships agree, and
that some active holder has a seal of the group's key.
-/

/-- Some active holder can sign, and only active holders have the key. -/
structure Sealed (group : Group) : Prop where
  holders : ∀ userId, group.sealed userId = true →
    group.holds userId .members = true
  reached : ∀ version userId, group.seals.has (version, userId) = true →
    version ≤ group.groupKeyVersion
  signer : ∃ userId, group.holds userId .members = true ∧
    group.sealed userId = true

/-- What holds of an undissolved group. -/
structure Standing (group : Group) : Prop where
  agrees : Agrees group
  sealed : Sealed group
  settled : group.successionDue = false

section

variable {group after : Group}

variable {userId : String} {elsewhere : Bool}

theorem holds_congr
    (same : after.activeRoles userId = group.activeRoles userId)
    (role : GroupRole) :
    after.holds userId role = group.holds userId role := by
  unfold Group.holds
  rw [same]

/-- Where active roles stay, rows and head still agree. -/
theorem Agrees.of_same
    (agrees : Agrees group)
    (head : after.head = group.head)
    (departures : after.departures = group.departures)
    (same : ∀ userId, after.activeRoles userId = group.activeRoles userId) :
    Agrees after := by
  have isActive : ∀ userId, after.isActive userId = group.isActive userId := by
    intro userId
    unfold Group.isActive
    rw [same]
  refine ⟨head ▸ agrees.valid, ?_, ?_, ?_, ?_, ?_, ?_⟩
  · intro userId
    rw [head, departures, isActive]
    exact agrees.listed userId
  · intro userId departed
    rw [isActive]
    exact agrees.apart userId (departures ▸ departed)
  · intro userId roles found
    rw [head]
    exact agrees.roles userId roles (same userId ▸ found)
  · intro userId held found
    rw [head]
    exact agrees.held userId held (departures ▸ found)
  · obtain ⟨userId, holds⟩ := agrees.signer
    exact ⟨userId, (holds_congr (same userId) _).trans holds⟩
  · obtain ⟨userId, holds⟩ := agrees.payer
    exact ⟨userId, (holds_congr (same userId) _).trans holds⟩

/-- Where active roles stay, the seals still stand. -/
theorem Standing.of_same
    (standing : Standing group)
    (head : after.head = group.head)
    (departures : after.departures = group.departures)
    (keyVersion : after.groupKeyVersion = group.groupKeyVersion)
    (due : after.successionDue = group.successionDue)
    (same : ∀ userId, after.activeRoles userId = group.activeRoles userId)
    (fewer : ∀ key, after.seals.has key = true → group.seals.has key = true)
    (kept : ∀ key, group.isActive key.2 = true → group.seals.has key = true →
      after.seals.has key = true) :
    Standing after := by
  refine ⟨standing.agrees.of_same head departures same, ⟨?_, ?_, ?_⟩,
    due.trans standing.settled⟩
  · intro userId isSealed
    rw [holds_congr (same userId)]
    unfold Group.sealed at isSealed
    rw [keyVersion] at isSealed
    exact standing.sealed.holders userId (fewer _ isSealed)
  · intro version userId stored
    rw [keyVersion]
    exact standing.sealed.reached version userId (fewer _ stored)
  · obtain ⟨userId, holds, isSealed⟩ := standing.sealed.signer
    refine ⟨userId, (holds_congr (same userId) _).trans holds, ?_⟩
    unfold Group.sealed
    rw [keyVersion]
    exact kept _ (isActive_of_holds holds) isSealed

theorem activeRoles_setMembership
    {write : Membership → Membership}
    (inactive : group.isActive userId = false)
    (stays : ∀ member, (write member).state ≠ .active)
    (other : String) :
    (group.setMembership userId write).activeRoles other =
      group.activeRoles other := by
  by_cases mine : other = userId
  · subst mine
    have unlisted : group.activeRoles other = none := by
      simpa [Group.isActive] using inactive
    rw [unlisted]
    unfold Group.activeRoles
    rw [get?_setMembership, if_pos rfl]
    cases group.memberships.get? other with
    | none => rfl
    | some member => exact if_neg (stays member)
  · refine activeRoles_congr ?_
    rw [get?_setMembership, if_neg mine]

theorem standing_setMembership
    (standing : Standing group)
    {write : Membership → Membership}
    (inactive : group.isActive userId = false)
    (stays : ∀ member, (write member).state ≠ .active) :
    Standing (group.setMembership userId write) :=
  standing.of_same rfl rfl rfl rfl (activeRoles_setMembership inactive stays)
    (fun _ stored => stored) fun _ _ stored => stored

theorem lockGroup_eq_ok :
    lockGroup group = .ok () ↔ group.dissolved = false := by
  simp [lockGroup]

theorem isActive_of_stateOf
    {state : MembershipState}
    (stored : stateOf group.memberships userId = some state)
    (other : state ≠ .active) :
    group.isActive userId = false := by
  refine isActive_eq_false.mpr ?_
  rw [stored]
  exact fun same => other (Option.some.inj same)

theorem standing_declinePending
    (standing : Standing group)
    {holder userId : String}
    (declined : declinePending group holder userId = .ok after) :
    Standing after := by
  simp only [declinePending, bind_eq_ok, exists_unit, refuseIf_eq_ok, not_not,
    Except.ok.injEq] at declined
  obtain ⟨_, _, waiting, rfl⟩ := declined
  exact standing_setMembership standing
    (isActive_of_stateOf waiting (by decide)) fun _ => by simp

theorem activeRoles_accepted
    {invitationRoles : List GroupRole}
    (inactive : group.isActive userId = false)
    (other : String) :
    Group.activeRoles
        { group with
          memberships := group.memberships.set userId
            { state := .accepted, roles := [], invitationRoles } } other =
      group.activeRoles other := by
  by_cases mine : other = userId
  · subst mine
    have unlisted : group.activeRoles other = none := by
      simpa [Group.isActive] using inactive
    rw [unlisted]
    simp [Group.activeRoles, get?_set]
  · refine activeRoles_congr ?_
    rw [get?_set, if_neg mine]

theorem standing_acceptInvitation
    (standing : Standing group)
    {invitationRoles : List GroupRole}
    (accepted : acceptInvitation group userId invitationRoles elsewhere =
      .ok after) :
    Standing after := by
  simp only [acceptInvitation, bind_eq_ok, exists_unit, refuseIf_eq_ok,
    Except.ok.injEq] at accepted
  obtain ⟨_, inactive, _, rfl⟩ := accepted
  exact standing.of_same rfl rfl rfl rfl
    (activeRoles_accepted (by simpa using inactive))
    (fun _ stored => stored) fun _ _ stored => stored

theorem has_revokeAccess
    (group : Group)
    (userId : String)
    (key : Nat × String) :
    (revokeAccess group userId).seals.has key = true ↔
      group.seals.has key = true ∧ key.2 ≠ userId := by
  rw [revokeAccess, has_iff, has_iff,
    OrderedMap.mem_keys, OrderedMap.mem_keys, get?_keep]
  by_cases mine : key.2 = userId <;> simp [mine]

theorem activeRoles_leave
    (group : Group)
    (userId other : String) :
    (leave group userId).activeRoles other =
      if other = userId then none else group.activeRoles other := by
  by_cases mine : other = userId
  · subst mine
    rw [if_pos rfl]
    unfold Group.activeRoles
    rw [leave, get?_setMembership, if_pos rfl]
    cases group.memberships.get? other with
    | none => rfl
    | some member => rfl
  · rw [if_neg mine]
    refine activeRoles_congr ?_
    rw [leave, get?_setMembership, if_neg mine]

theorem mem_othersOf
    {userId other : String} :
    other ∈ othersOf group userId ↔
      group.isActive other = true ∧ other ≠ userId := by
  simp [othersOf, mem_listActiveMemberIds]

/-- What lets an active member leave while others remain. -/
structure Leaves (group : Group) (userId : String) (roles : List GroupRole) :
    Prop where
  payer : .billing ∈ roles →
    ∃ other, other ≠ userId ∧ group.holds other .billing = true
  signer : .members ∈ roles →
    ∃ other, other ≠ userId ∧ group.holds other .members = true ∧
      group.sealed other = true

theorem leaves_of_blocker
    {roles : List GroupRole}
    (unblocked : blocker group roles (othersOf group userId) = .ok ()) :
    Leaves group userId roles := by
  simp only [blocker, bind_eq_ok, exists_unit, refuseIf_eq_ok,
    contains_iff_mem, not_and, not_forall, Bool.not_eq_false,
    Bool.and_eq_true] at unblocked
  obtain ⟨payer, signer⟩ := unblocked
  constructor
  · intro holds
    obtain ⟨other, member, found⟩ := payer holds
    exact ⟨other, (mem_othersOf.mp member).2, found⟩
  · intro holds
    obtain ⟨other, member, found, isSealed⟩ := signer holds
    exact ⟨other, (mem_othersOf.mp member).2, found, isSealed⟩

/-- What a departure leaves. -/
inductive Departed (group : Group) (userId : String) : Group → Prop where
  | waiting
      (inactive : group.isActive userId = false) :
      Departed group userId (leave group userId)
  | dissolved
      {after : Group}
      (isDissolved : after.dissolved = true)
      (nobody : ∀ other, after.activeRoles other = none) :
      Departed group userId after
  | gone
      {after : Group}
      {roles : List GroupRole}
      (found : group.activeRoles userId = some roles)
      (leaves : Leaves group userId roles)
      (members : after.memberships = (leave group userId).memberships)
      (seals : after.seals = (revokeAccess group userId).seals)
      (departures : after.departures =
        match group.departures.get? userId with
        | some _ => group.departures
        | none => group.departures.set userId (roles.contains .members))
      (rest : after = { group with
        memberships := after.memberships
        seals := after.seals
        departures := after.departures }) :
      Departed group userId after

/-- What a departure leaves. -/
theorem departed_of_depart
    (departed : depart group userId elsewhere = .ok after) :
    Departed group userId after := by
  unfold depart at departed
  split at departed
  · cases departed
  · next membership stored =>
      split at departed
      · cases departed
      · cases departed
      · next waiting =>
          rw [Except.ok.injEq] at departed
          subst departed
          refine .waiting (isActive_of_stateOf
            (stateOf_eq_some.mpr ⟨membership, stored, waiting⟩) (by decide))
      · next isActive =>
          simp only [bind_eq_ok, exists_unit, refuseIf_eq_ok] at departed
          obtain ⟨_, departed⟩ := departed
          split at departed
          · next alone =>
              rw [Except.ok.injEq] at departed
              subst departed
              refine .dissolved rfl fun other => ?_
              change (leave group userId).activeRoles other = none
              rw [activeRoles_leave]
              split
              · rfl
              · next differs =>
                  have absent : other ∉ othersOf group userId := by
                    rw [alone]
                    exact not_mem_nil
                  rw [mem_othersOf, not_and_not_right] at absent
                  cases found : group.activeRoles other with
                  | none => rfl
                  | some roles =>
                    refine absurd (absent ?_) differs
                    rw [Group.isActive, found]
                    rfl
          · simp only [bind_eq_ok, exists_unit, Except.ok.injEq] at departed
            obtain ⟨unblocked, rfl⟩ := departed
            exact .gone
              (activeRoles_eq_some.mpr ⟨membership, stored, isActive, rfl⟩)
              (leaves_of_blocker unblocked) rfl rfl rfl rfl

/-- A person who leaves takes no one else's seal. -/
theorem standing_gone
    (standing : Standing group)
    {roles : List GroupRole}
    (found : group.activeRoles userId = some roles)
    (leaves : Leaves group userId roles)
    (members : after.memberships = (leave group userId).memberships)
    (seals : after.seals = (revokeAccess group userId).seals)
    (departures : after.departures =
      match group.departures.get? userId with
      | some _ => group.departures
      | none => group.departures.set userId (roles.contains .members))
    (rest : after = { group with
      memberships := after.memberships
      seals := after.seals
      departures := after.departures }) :
    Standing after := by
  have isActive : group.isActive userId = true := by
    rw [Group.isActive, found]
    rfl
  have undeparted : group.departures.get? userId = none := by
    cases held : group.departures.get? userId with
    | none => rfl
    | some was =>
      have inactive := standing.agrees.apart userId
        (has_iff_exists.mpr ⟨was, held⟩)
      rw [isActive] at inactive
      cases inactive
  rw [undeparted] at departures
  have head : after.head = group.head := by rw [rest]
  have keyVersion : after.groupKeyVersion = group.groupKeyVersion := by
    rw [rest]
  have due : after.successionDue = group.successionDue := by rw [rest]
  have roles_ : ∀ other, after.activeRoles other =
      if other = userId then none else group.activeRoles other := by
    intro other
    rw [← activeRoles_leave]
    exact activeRoles_congr (by rw [members])
  have active_ : ∀ other, after.isActive other = true ↔
      group.isActive other = true ∧ other ≠ userId := by
    intro other
    unfold Group.isActive
    rw [roles_]
    by_cases mine : other = userId <;> simp [mine]
  have holds : ∀ other role, other ≠ userId →
      after.holds other role = group.holds other role := by
    intro other role differs
    refine holds_congr ?_ role
    rw [roles_, if_neg differs]
  have isSealed : ∀ other, after.sealed other = true ↔
      group.sealed other = true ∧ other ≠ userId := by
    intro other
    unfold Group.sealed
    rw [keyVersion, seals, has_revokeAccess]
  have has : ∀ other, after.departures.has other = true ↔
      group.departures.has other = true ∨ other = userId := by
    intro other
    rw [departures, has_iff_exists, has_iff_exists, get?_set]
    by_cases mine : other = userId <;> simp [mine]
  obtain ⟨entry, inHead, isRoles⟩ := standing.agrees.roles userId roles found
  refine ⟨⟨head ▸ standing.agrees.valid, ?_, ?_, ?_, ?_, ?_, ?_⟩, ⟨?_, ?_, ?_⟩,
    due.trans standing.settled⟩
  · intro other
    rw [head, standing.agrees.listed, active_, has]
    by_cases mine : other = userId
    · simp [mine, isActive]
    · simp [mine]
  · intro other departed
    rw [← Bool.not_eq_true, active_]
    rintro ⟨still, differs⟩
    rcases (has other).mp departed with earlier | mine
    · rw [standing.agrees.apart other earlier] at still
      cases still
    · exact differs mine
  · intro other given held
    rw [roles_] at held
    split at held
    · cases held
    · rw [head]
      exact standing.agrees.roles other given held
  · intro other held stored
    rw [head]
    rw [departures, get?_set] at stored
    split at stored
    · next mine =>
        rw [Option.some.injEq] at stored
        rw [mine, ← stored, isRoles]
        exact ⟨entry, inHead, rfl⟩
    · exact standing.agrees.held other held stored
  · by_cases mine : GroupRole.members ∈ roles
    · obtain ⟨other, differs, isHolder, _⟩ := leaves.signer mine
      exact ⟨other, (holds other _ differs).trans isHolder⟩
    · obtain ⟨other, isHolder⟩ := standing.agrees.signer
      refine ⟨other, (holds other _ ?_).trans isHolder⟩
      rintro rfl
      obtain ⟨given, stored, member⟩ := holds_iff.mp isHolder
      rw [found, Option.some.injEq] at stored
      exact mine (stored ▸ member)
  · by_cases mine : GroupRole.billing ∈ roles
    · obtain ⟨other, differs, isHolder⟩ := leaves.payer mine
      exact ⟨other, (holds other _ differs).trans isHolder⟩
    · obtain ⟨other, isHolder⟩ := standing.agrees.payer
      refine ⟨other, (holds other _ ?_).trans isHolder⟩
      rintro rfl
      obtain ⟨given, stored, member⟩ := holds_iff.mp isHolder
      rw [found, Option.some.injEq] at stored
      exact mine (stored ▸ member)
  · intro other stored
    obtain ⟨before, differs⟩ := (isSealed other).mp stored
    rw [holds other _ differs]
    exact standing.sealed.holders other before
  · intro version other stored
    rw [seals, has_revokeAccess] at stored
    rw [keyVersion]
    exact standing.sealed.reached version other stored.1
  · by_cases mine : GroupRole.members ∈ roles
    · obtain ⟨other, differs, isHolder, has⟩ := leaves.signer mine
      exact ⟨other, (holds other _ differs).trans isHolder,
        (isSealed other).mpr ⟨has, differs⟩⟩
    · obtain ⟨other, isHolder, has⟩ := standing.sealed.signer
      have differs : other ≠ userId := by
        rintro rfl
        obtain ⟨given, stored, member⟩ := holds_iff.mp isHolder
        rw [found, Option.some.injEq] at stored
        exact mine (stored ▸ member)
      exact ⟨other, (holds other _ differs).trans isHolder,
        (isSealed other).mpr ⟨has, differs⟩⟩

theorem Departed.standing
    (standing : Standing group)
    (departed : Departed group userId after)
    (undissolved : after.dissolved = false) :
    Standing after := by
  cases departed with
  | waiting inactive =>
    exact standing_setMembership standing inactive fun _ => by simp
  | dissolved isDissolved _ =>
    rw [isDissolved] at undissolved
    cases undissolved
  | gone found leaves members seals departures rest =>
    exact standing_gone standing found leaves members seals departures rest

theorem Departed.inactive
    (departed : Departed group userId after) :
    after.isActive userId = false := by
  cases departed with
  | waiting inactive =>
    unfold Group.isActive
    rw [activeRoles_leave, if_pos rfl]
    rfl
  | dissolved _ nobody =>
    unfold Group.isActive
    rw [nobody]
    rfl
  | gone found leaves members seals departures rest =>
    unfold Group.isActive
    have same : after.activeRoles userId =
        (leave group userId).activeRoles userId :=
      activeRoles_congr (by rw [members])
    rw [same, activeRoles_leave, if_pos rfl]
    rfl

theorem Departed.fewer
    (departed : Departed group userId after)
    {other : String}
    (isActive : after.isActive other = true) :
    group.isActive other = true := by
  have still : (leave group userId).isActive other = true →
      group.isActive other = true := by
    unfold Group.isActive
    rw [activeRoles_leave]
    split
    · simp
    · exact id
  cases departed with
  | waiting inactive =>
    exact still isActive
  | dissolved _ nobody =>
    unfold Group.isActive at isActive
    rw [nobody] at isActive
    cases isActive
  | gone found leaves members seals departures rest =>
    refine still ?_
    rw [← isActive]
    exact (isActive_congr (by rw [members])).symm

theorem Departed.chain
    (departed : depart group userId elsewhere = .ok after) :
    storedChain after = storedChain group := by
  unfold depart at departed
  split at departed
  · cases departed
  · split at departed
    · cases departed
    · cases departed
    · rw [Except.ok.injEq] at departed
      subst departed
      rfl
    · simp only [bind_eq_ok, exists_unit, refuseIf_eq_ok] at departed
      obtain ⟨_, departed⟩ := departed
      split at departed
      · rw [Except.ok.injEq] at departed
        subst departed
        rfl
      · simp only [bind_eq_ok, exists_unit, Except.ok.injEq] at departed
        obtain ⟨_, rfl⟩ := departed
        rfl

theorem activeRoles_cascade
    (inactive : group.isActive userId = false)
    (other : String) :
    (cascade group userId).activeRoles other = group.activeRoles other := by
  by_cases mine : other = userId
  · subst mine
    have unlisted : group.activeRoles other = none := by
      simpa [Group.isActive] using inactive
    rw [unlisted]
    simp [Group.activeRoles, cascade, get?_erase]
  · refine activeRoles_congr ?_
    rw [cascade, get?_erase, if_neg mine]

theorem standing_cascade
    (standing : Standing group)
    (inactive : group.isActive userId = false) :
    Standing (cascade group userId) := by
  refine standing.of_same rfl rfl rfl rfl (activeRoles_cascade inactive) ?_ ?_
  · intro key stored
    exact ((has_revokeAccess group userId key).mp stored).1
  · intro key isActive stored
    refine (has_revokeAccess group userId key).mpr ⟨stored, ?_⟩
    rintro rfl
    rw [inactive] at isActive
    cases isActive

/-- Only a person who is not active is refused as no member. -/
theorem inactive_of_depart
    (refused : depart group userId elsewhere = .error .notMember) :
    group.isActive userId = false := by
  rw [isActive_eq_false]
  unfold depart at refused
  split at refused
  · next missing =>
      simp [stateOf, missing]
  · next membership stored =>
      split at refused
      · next state =>
          simp [stateOf, stored, state]
      · next state =>
          simp [stateOf, stored, state]
      · cases refused
      · simp only [bind_eq_error, refuseIf_eq_error] at refused
        rcases refused with ⟨_, wrong⟩ | ⟨_, _, refused⟩
        · cases wrong
        · split at refused
          · cases refused
          · simp only [blocker, bind_eq_error, refuseIf_eq_error] at refused
            rcases refused with (⟨_, wrong⟩ | ⟨_, _, _, wrong⟩) |
              ⟨_, _, wrong⟩
            · cases wrong
            · cases wrong
            · cases wrong

/-- A deletion cascades from a group that its person has left. -/
theorem deleteAccount_eq_ok
    {listed elsewhere : Bool}
    (deleted : deleteAccount group userId listed elsewhere = .ok after)
    (departs : listed = false → group.isActive userId = false)
    (undissolved : group.dissolved = false) :
    ∃ before, after = cascade before userId ∧
      (before = group ∨ depart group userId elsewhere = .ok before) ∧
      before.isActive userId = false := by
  unfold deleteAccount at deleted
  split at deleted
  · split at deleted
    · next departed found =>
        rw [Except.ok.injEq] at deleted
        exact ⟨departed, deleted.symm, .inr found,
          (departed_of_depart found).inactive⟩
    · next refused =>
        rw [Except.ok.injEq] at deleted
        exact ⟨group, deleted.symm, .inl rfl, inactive_of_depart refused⟩
    · cases deleted
  · next unlisted =>
      rw [Except.ok.injEq] at deleted
      refine ⟨group, deleted.symm, .inl rfl, departs ?_⟩
      cases listed with
      | true => exact absurd ⟨rfl, undissolved⟩ unlisted
      | false => rfl

end

end Groups

end HushOS
