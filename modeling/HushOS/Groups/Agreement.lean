import HushOS.Groups.Calls

namespace HushOS

open Toolkit List OrderedMap

namespace Groups

/-!
# The chain and the memberships agree

Whoever the head lists active is an active member, or departed and due to be
marked left; the roles and what the departed held are the entries'.
-/

/-- The head's active entries are the active members and the departed. -/
structure Agrees (group : Group) : Prop where
  valid : group.head.Valid
  listed : ∀ userId, active (rosterEntry group.head userId) = true ↔
    group.isActive userId = true ∨ group.departures.has userId = true
  apart : ∀ userId, group.departures.has userId = true →
    group.isActive userId = false
  roles : ∀ userId roles, group.activeRoles userId = some roles →
    ∃ entry, rosterEntry group.head userId = some entry ∧
      roles = entry.roles
  held : ∀ userId held, group.departures.get? userId = some held →
    ∃ entry, rosterEntry group.head userId = some entry ∧
      held = entry.roles.contains .members
  signer : ∃ userId, group.holds userId .members = true
  payer : ∃ userId, group.holds userId .billing = true

theorem eq_of_sameRoles
    {first second : List GroupRole}
    (firstSorted : (first.map GroupRole.name).Pairwise Before)
    (secondSorted : (second.map GroupRole.name).Pairwise Before)
    (same : sameRoles first second = true) :
    first = second := by
  simp only [sameRoles, Bool.and_eq_true, decide_eq_true_eq] at same
  have sortedSame : sortBy GroupRole.name first =
      sortBy GroupRole.name second :=
    map_injective_iff.mpr GroupRole.name_injective
      (joined_injective (joinable_roles _) (joinable_roles _) same.2)
  have memSame : ∀ role, role ∈ first ↔ role ∈ second := by
    intro role
    rw [← mem_sortBy GroupRole.name, sortedSame, mem_sortBy]
  refine map_injective_iff.mpr GroupRole.name_injective
    (eq_of_ascending firstSorted secondSorted fun name => ?_)
  simp only [mem_map, memSame]

section

variable {head next : Roster}

theorem Follows.checked (follows : Follows head next) :
    (∀ entry ∈ head.members, rosterEntry next entry.userId ≠ none) ∧
      ∀ entry ∈ next.members,
        entry.sinceVersion = sinceVersionOf head next entry := by
  refine checkEntries_eq_ok.mp ?_
  have entries := follows.entries
  cases checked : checkEntries head next with
  | ok value => rfl
  | error refusal =>
    rw [checked] at entries
    cases entries

theorem rosterEntry_of_change
    (valid : next.Valid)
    {change : EntryChange}
    (member : change ∈ changesOf head next) :
    ∃ entry, rosterEntry next change.userId = some entry ∧
      entry.status = change.status ∧ entry.roles = change.roles := by
  obtain ⟨entry, inNext, rfl⟩ := mem_map.mp member
  exact ⟨entry, rosterEntry_of_mem valid (mem_filter.mp inNext).1, rfl,
    rfl⟩

variable {userId : String}

/-- A person no change names keeps status and roles. -/
theorem rosterEntry_of_unchanged
    (follows : Follows head next)
    (unchanged : userId ∉ (changesOf head next).map EntryChange.userId) :
    (rosterEntry head userId = none ∧ rosterEntry next userId = none) ∨
      ∃ before entry, rosterEntry head userId = some before ∧
        rosterEntry next userId = some entry ∧
          entry.status = before.status ∧ entry.roles = before.roles := by
  cases found : rosterEntry next userId with
  | none =>
    refine .inl ⟨?_, rfl⟩
    by_contra present
    obtain ⟨before, inHead⟩ := Option.ne_none_iff_exists'.mp present
    have stays := follows.checked.1 before (mem_of_rosterEntry inHead)
    rw [userId_of_rosterEntry inHead] at stays
    exact stays found
  | some entry =>
    right
    have inNext := mem_of_rosterEntry found
    have mine := userId_of_rosterEntry found
    have earlier : entry.sinceVersion ≠ next.rosterVersion := by
      intro now
      refine unchanged ?_
      rw [mem_map]
      refine ⟨_, mem_map_of_mem (mem_filter.mpr
        ⟨inNext, decide_eq_true now⟩), mine⟩
    have since := follows.checked.2 entry inNext
    unfold sinceVersionOf at since
    rw [mine] at since
    split at since
    · next before inHead =>
        split at since
        · next alike =>
            obtain ⟨_, _, _, _, _, status, roles⟩ := sameEntry_iff.mp alike
            exact ⟨before, entry, inHead, rfl, status.symm, roles.symm⟩
        · exact absurd since earlier
    · exact absurd since earlier

theorem active_of_unchanged
    (follows : Follows head next)
    (unchanged : userId ∉ (changesOf head next).map EntryChange.userId) :
    active (rosterEntry next userId) = active (rosterEntry head userId) := by
  rcases rosterEntry_of_unchanged follows unchanged with
    ⟨before, after⟩ | ⟨_, _, before, after, status, _⟩
  · rw [before, after]
  · rw [before, after]
    simp [active, status]

theorem activeWith_of_unchanged
    (follows : Follows head next)
    (unchanged : userId ∉ (changesOf head next).map EntryChange.userId)
    (role : GroupRole) :
    activeWith (rosterEntry next userId) role =
      activeWith (rosterEntry head userId) role := by
  rcases rosterEntry_of_unchanged follows unchanged with
    ⟨before, after⟩ | ⟨_, _, before, after, status, roles⟩
  · rw [before, after]
  · rw [before, after]
    simp [activeWith, status, roles]

end

section

variable {group : Group}

variable {userId : String}

theorem activeRoles_eq_some
    {roles : List GroupRole} :
    group.activeRoles userId = some roles ↔
      ∃ member, group.memberships.get? userId = some member ∧
        member.state = .active ∧ member.roles = roles := by
  unfold Group.activeRoles
  split
  · next member found =>
      split <;> simp_all
  · next missing =>
      simp [missing]

theorem isActive_iff
    {userId : String} :
    group.isActive userId = true ↔
      stateOf group.memberships userId = some .active := by
  rw [stateOf_eq_some, Group.isActive, Option.isSome_iff_exists]
  constructor
  · rintro ⟨roles, found⟩
    obtain ⟨member, stored, state, _⟩ := activeRoles_eq_some.mp found
    exact ⟨member, stored, state⟩
  · rintro ⟨member, stored, state⟩
    exact ⟨_, activeRoles_eq_some.mpr ⟨member, stored, state, rfl⟩⟩

theorem isActive_eq_false
    {userId : String} :
    group.isActive userId = false ↔
      stateOf group.memberships userId ≠ some .active := by
  rw [ne_eq, ← isActive_iff, Bool.not_eq_true]

/-- A roster makes no one active but the person it admits. -/
theorem RosterWrote.active_before
    {departed : OrderedMap String Bool}
    {route : ChainRoute}
    {changes : List EntryChange}
    {after : Group}
    (wrote : RosterWrote departed route changes group after)
    (isActive : after.isActive userId = true) :
    group.isActive userId = true ∨ route.admitted = some userId := by
  rw [isActive_iff, stateOf] at isActive
  rw [isActive_iff, stateOf]
  by_cases changed : userId ∈ changes.map EntryChange.userId
  · obtain ⟨change, member, rfl⟩ := mem_map.mp changed
    have outcome := wrote.outcome change member
    generalize after.memberships.get? change.userId = now
      at outcome isActive
    cases outcome with
    | admitted admits _ =>
      right
      rw [admits]
      rfl
    | removed _ _ isMember =>
      exact .inl isMember
    | marked =>
      exact .inl isActive
    | kept _ _ stored state _ =>
      exact .inl (stateOf_eq_some.mpr ⟨_, stored, state⟩)
    | changed _ _ stored state =>
      exact .inl (stateOf_eq_some.mpr ⟨_, stored, state⟩)
  · rw [wrote.others userId changed] at isActive
    exact .inl isActive

variable {role : GroupRole}

theorem holds_iff :
    group.holds userId role = true ↔
      ∃ roles, group.activeRoles userId = some roles ∧ role ∈ roles := by
  unfold Group.holds
  split
  · next roles found =>
      simp [found]
  · next missing =>
      simp [missing]

theorem has_iff_exists
    {table : OrderedMap String Bool}
    {userId : String} :
    table.has userId = true ↔ ∃ held, table.get? userId = some held := by
  rw [has_iff, OrderedMap.mem_keys]

theorem activeRoles_congr
    {after : Group}
    (same : after.memberships.get? userId =
      group.memberships.get? userId) :
    after.activeRoles userId = group.activeRoles userId := by
  unfold Group.activeRoles
  rw [same]

theorem isActive_congr
    {after : Group}
    (same : after.memberships.get? userId =
      group.memberships.get? userId) :
    after.isActive userId = group.isActive userId := by
  unfold Group.isActive
  rw [activeRoles_congr same]

theorem Agrees.activeWith_of_holds
    (agrees : Agrees group)
    (holds : group.holds userId role = true) :
    activeWith (rosterEntry group.head userId) role = true := by
  obtain ⟨roles, found, member⟩ := holds_iff.mp holds
  obtain ⟨entry, inHead, rfl⟩ := agrees.roles userId roles found
  have isListed := (agrees.listed userId).mpr
    (.inl (isActive_of_holds holds))
  rw [inHead] at isListed ⊢
  simp_all [active, activeWith]

theorem Agrees.holds_of_activeWith
    (agrees : Agrees group)
    (isActive : group.isActive userId = true)
    (listed : activeWith (rosterEntry group.head userId) role = true) :
    group.holds userId role = true := by
  obtain ⟨roles, found⟩ := Option.isSome_iff_exists.mp isActive
  obtain ⟨entry, inHead, rfl⟩ := agrees.roles userId roles found
  rw [inHead] at listed
  simp only [activeWith, Bool.and_eq_true, decide_eq_true_eq,
    contains_iff_mem] at listed
  exact holds_iff.mpr ⟨_, found, listed.2⟩

/-- Where rows agree with the head, it says who held before. -/
theorem Agrees.heldBefore_eq
    (agrees : Agrees group)
    (userId : String) :
    heldBefore group.memberships group.departures userId =
      activeWith (rosterEntry group.head userId) .members := by
  cases isActive : group.isActive userId with
  | true =>
    obtain ⟨roles, found⟩ := Option.isSome_iff_exists.mp isActive
    obtain ⟨entry, inHead, rfl⟩ := agrees.roles userId roles found
    obtain ⟨member, stored, state, roles⟩ := activeRoles_eq_some.mp found
    have isListed := (agrees.listed userId).mpr (.inl isActive)
    rw [inHead] at isListed ⊢
    simp_all [heldBefore, active, activeWith]
  | false =>
    have inactive := isActive_eq_false.mp isActive
    cases departed : group.departures.has userId with
    | true =>
      obtain ⟨held, found⟩ := has_iff_exists.mp departed
      obtain ⟨entry, inHead, rfl⟩ := agrees.held userId held found
      have isListed := (agrees.listed userId).mpr (.inr departed)
      rw [inHead] at isListed ⊢
      unfold heldBefore
      rw [found]
      cases stored : group.memberships.get? userId with
      | none =>
        simp_all [active, activeWith]
      | some member =>
        have other : member.state ≠ .active := by
          intro state
          exact inactive (stateOf_eq_some.mpr ⟨member, stored, state⟩)
        simp_all [active, activeWith]
    | false =>
      have unlisted : ¬ active (rosterEntry group.head userId) = true := by
        rw [agrees.listed, isActive, departed]
        simp
      rw [heldBefore_of_not inactive departed]
      cases inHead : rosterEntry group.head userId with
      | none =>
        rfl
      | some entry =>
        rw [inHead] at unlisted
        simp_all [active, activeWith]

end

section

variable {group after : Group}
variable {next : Roster}
variable {route : ChainRoute}
variable {drops : Bool}

/-- A roster that follows the head, every departure marked, projected. -/
structure Projected
    (group after : Group)
    (route : ChainRoute)
    (next : Roster)
    (drops : Bool) : Prop where
  agrees : Agrees group
  valid : next.Valid
  follows : Follows group.head next
  admission : ∀ userId, route = .admission userId →
    stateOf group.memberships userId = some .accepted
  marked : ∀ userId, group.departures.has userId = true →
    ∃ change ∈ changesOf group.head next,
      change.userId = userId ∧ change.status = .left
  applied : applyRoster group.departures route (changesOf group.head next)
    group = .ok (after, drops)

namespace Projected

variable (projected : Projected group after route next drops)

include projected

variable {change : EntryChange}

theorem change_unique
    {other : EntryChange}
    (first : change ∈ changesOf group.head next)
    (second : other ∈ changesOf group.head next)
    (same : change.userId = other.userId) :
    change = other := by
  have distinct := (applyRoster_eq_ok projected.applied).1
  exact inj_on_of_nodup_map distinct first second same

/-- A change drops a holder when it takes an active entry away. -/
theorem dropsBy_iff
    (member : change ∈ changesOf group.head next) :
    dropsBy group.memberships group.departures route change = true ↔
      activeWith (rosterEntry group.head change.userId) .members = true ∧
        activeWith (rosterEntry next change.userId) .members = false := by
  obtain ⟨entry, inNext, status, roles⟩ :=
    rosterEntry_of_change projected.valid member
  have after_ : activeWith (rosterEntry next change.userId) .members =
      (decide (change.status = .active) &&
        change.roles.contains .members) := by
    rw [inNext, ← status, ← roles]
    rfl
  rw [dropsBy, projected.agrees.heldBefore_eq, after_]
  by_cases admits : route = .admission change.userId
  · have waiting := projected.admission _ admits
    have outcome := (applyRoster_eq_ok projected.applied).2.1.outcome change
      member
    have inactive : group.isActive change.userId = false :=
      isActive_eq_false.mpr (by rw [waiting]; simp)
    have unlisted :
        activeWith (rosterEntry group.head change.userId) .members =
          false := by
      rw [← projected.agrees.heldBefore_eq]
      refine heldBefore_of_not (isActive_eq_false.mp inactive) ?_
      by_contra departed
      rw [Bool.not_eq_false] at departed
      obtain ⟨other, inChanges, same, isLeft⟩ :=
        projected.marked change.userId departed
      rw [projected.change_unique inChanges member same] at isLeft
      generalize after.memberships.get? change.userId = now at outcome
      cases outcome with
      | admitted _ isActive =>
        rw [isLeft] at isActive
        cases isActive
      | removed removes _ _ =>
        rw [admits] at removes
        cases removes
      | marked admitsOther _ _ =>
        exact admitsOther admits
      | kept _ isActive _ _ _ =>
        rw [isLeft] at isActive
        cases isActive
      | changed _ isActive _ _ =>
        rw [isLeft] at isActive
        cases isActive
    simp [admits, unlisted]
  · simp only [admits, ne_eq, not_false_eq_true, decide_true, Bool.true_and,
      Bool.and_eq_true, Bool.not_eq_eq_eq_not, Bool.not_true]

/-- The rows and the rosters agree on whether a holder is dropped. -/
theorem drops_eq : drops = dropsHolder group.head next := by
  obtain ⟨_, _, _, _, dropsSame⟩ := applyRoster_eq_ok projected.applied
  rw [dropsSame, Bool.eq_iff_iff, any_eq_true, dropsHolder_iff]
  constructor
  · rintro ⟨change, member, dropped⟩
    obtain ⟨before, gone⟩ := (projected.dropsBy_iff member).mp dropped
    cases inHead : rosterEntry group.head change.userId with
    | none =>
      rw [inHead] at before
      cases before
    | some entry =>
      refine ⟨entry, mem_of_rosterEntry inHead, inHead ▸ before, ?_⟩
      rw [userId_of_rosterEntry inHead]
      exact gone
  · rintro ⟨entry, inHead, before, gone⟩
    have found := rosterEntry_of_mem projected.agrees.valid inHead
    by_cases changed :
        entry.userId ∈ (changesOf group.head next).map EntryChange.userId
    · obtain ⟨change, member, mine⟩ := mem_map.mp changed
      refine ⟨change, member, (projected.dropsBy_iff member).mpr ?_⟩
      rw [mine, found]
      exact ⟨before, gone⟩
    · rw [activeWith_of_unchanged projected.follows changed, found,
        before] at gone
      cases gone

theorem changed_of_departed
    {userId : String}
    (departed : group.departures.has userId = true) :
    userId ∈ (changesOf group.head next).map EntryChange.userId := by
  obtain ⟨change, member, mine, _⟩ := projected.marked userId departed
  exact mine ▸ mem_map_of_mem member

/-- After a change its person has the changed roles while active. -/
theorem activeRoles_of_change
    (member : change ∈ changesOf group.head next) :
    after.activeRoles change.userId =
      if change.status = .active then some change.roles else none := by
  obtain ⟨_, wrote, _⟩ := applyRoster_eq_ok projected.applied
  have outcome := wrote.outcome change member
  unfold Group.activeRoles
  generalize after.memberships.get? change.userId = now at outcome
  cases outcome with
  | admitted admits isActive =>
    obtain ⟨waiting, stored, _⟩ :=
      stateOf_eq_some.mp (projected.admission _ admits)
    simp [stored, isActive]
  | removed _ isLeft isMember =>
    obtain ⟨membership, stored, _⟩ := stateOf_eq_some.mp isMember
    simp [stored, isLeft]
  | marked _ isLeft inactive =>
    cases stored : group.memberships.get? change.userId with
    | none =>
      simp [isLeft]
    | some membership =>
      have other : membership.state ≠ .active := by
        intro state
        exact inactive (stateOf_eq_some.mpr ⟨membership, stored, state⟩)
      simp [isLeft, other]
  | kept _ isActive stored state same =>
    next membership =>
    obtain ⟨entry, inNext, _, roles⟩ :=
      rosterEntry_of_change projected.valid member
    obtain ⟨before, inHead, beforeRoles⟩ :=
      projected.agrees.roles change.userId membership.roles
        (activeRoles_eq_some.mpr ⟨membership, stored, state, rfl⟩)
    have unchanged : membership.roles = change.roles := by
      refine eq_of_sameRoles ?_ ?_ same
      · rw [beforeRoles]
        exact (projected.agrees.valid.members before
          (mem_of_rosterEntry inHead)).roles_sorted
      · rw [← roles]
        exact (projected.valid.members entry
          (mem_of_rosterEntry inNext)).roles_sorted
    simp [state, isActive, unchanged]
  | changed _ isActive stored state =>
    simp [state, isActive]

theorem activeRoles_of_unchanged
    {userId : String}
    (unchanged : userId ∉
      (changesOf group.head next).map EntryChange.userId) :
    after.activeRoles userId = group.activeRoles userId := by
  obtain ⟨_, wrote, _⟩ := applyRoster_eq_ok projected.applied
  exact activeRoles_congr (wrote.others userId unchanged)

/-- After the changes the active roles are the next roster's. -/
theorem activeRoles_eq
    (userId : String) :
    after.activeRoles userId =
      (rosterEntry next userId).bind fun entry =>
        if entry.status = .active then some entry.roles else none := by
  by_cases changed :
      userId ∈ (changesOf group.head next).map EntryChange.userId
  · obtain ⟨change, member, rfl⟩ := mem_map.mp changed
    obtain ⟨entry, inNext, status, roles⟩ :=
      rosterEntry_of_change projected.valid member
    rw [projected.activeRoles_of_change member, inNext, Option.bind_some,
      status, roles]
  · have stays : group.departures.has userId = false := by
      by_contra departed
      exact changed (projected.changed_of_departed (by simpa using departed))
    have listed := projected.agrees.listed userId
    rw [stays] at listed
    rw [projected.activeRoles_of_unchanged changed]
    cases found : group.activeRoles userId with
    | some roles =>
      obtain ⟨entry, inHead, rfl⟩ := projected.agrees.roles _ _ found
      have isListed := listed.mpr (.inl (by
        rw [Group.isActive, found]
        rfl))
      rcases rosterEntry_of_unchanged projected.follows changed with
        ⟨before, _⟩ | ⟨before, entry', inBefore, inNext, status, roles⟩
      · rw [inHead] at before
        cases before
      · rw [inHead, Option.some.injEq] at inBefore
        subst inBefore
        rw [inHead] at isListed
        simp only [active, decide_eq_true_eq] at isListed
        simp [inNext, status, roles, isListed]
    | none =>
      have unlisted : active (rosterEntry group.head userId) = false := by
        rw [← Bool.not_eq_true, listed, Group.isActive, found]
        simp
      rcases rosterEntry_of_unchanged projected.follows changed with
        ⟨_, inNext⟩ | ⟨before, entry, inHead, inNext, status, _⟩
      · simp [inNext]
      · rw [inHead] at unlisted
        simp only [active, decide_eq_false_iff_not] at unlisted
        simp [inNext, status, unlisted]

/-- The rows written agree with the new head. -/
theorem agrees_after
    {written : Group}
    (memberships : written.memberships = after.memberships)
    (head : written.head = next)
    (departures : written.departures = .empty) :
    Agrees written := by
  obtain ⟨_, _, signer, payer, _⟩ := applyRoster_eq_ok projected.applied
  have roles : ∀ userId, written.activeRoles userId =
      after.activeRoles userId :=
    fun userId => activeRoles_congr (by rw [memberships])
  have nobody : ∀ userId, written.departures.has userId = false := by
    intro userId
    rw [departures]
    rfl
  have holds : ∀ userId role, written.holds userId role =
      after.holds userId role := by
    intro userId role
    unfold Group.holds
    rw [roles]
  refine ⟨head ▸ projected.valid, ?_, ?_, ?_, ?_, ?_, ?_⟩
  · intro userId
    rw [nobody, head, Group.isActive, roles, projected.activeRoles_eq]
    cases rosterEntry next userId with
    | none =>
      simp [active]
    | some entry =>
      cases status : entry.status <;> simp [active, status]
  · intro userId departed
    rw [nobody] at departed
    cases departed
  · intro userId given found
    rw [roles, projected.activeRoles_eq] at found
    obtain ⟨entry, inNext, found⟩ := Option.bind_eq_some_iff.mp found
    split at found
    · rw [Option.some.injEq] at found
      exact ⟨entry, head ▸ inNext, found.symm⟩
    · cases found
  · intro userId held found
    rw [departures] at found
    cases found
  · obtain ⟨userId, isSigner⟩ := signer
    exact ⟨userId, (holds userId _).trans isSigner⟩
  · obtain ⟨userId, isPayer⟩ := payer
    exact ⟨userId, (holds userId _).trans isPayer⟩

end Projected

end

end Groups

end HushOS
