import HushOS.Groups.Memberships

namespace HushOS

open Toolkit List OrderedMap

namespace Groups

/-!
# What a roster projects

Every change is judged by what is stored of its person, and no change is of
two people, so what a roster leaves of the memberships and the seals is said
one person at a time.
-/

variable {stored : OrderedMap String Membership}
variable {departed : OrderedMap String Bool}
variable {route : ChainRoute}

/-- What one change leaves of its person's membership. -/
inductive Outcome
    (stored : OrderedMap String Membership)
    (departed : OrderedMap String Bool)
    (route : ChainRoute)
    (change : EntryChange) : Option Membership → Prop where
  | admitted
      (admits : route = .admission change.userId)
      (isActive : change.status = .active) :
      Outcome stored departed route change
        ((stored.get? change.userId).map fun member =>
          { member with state := .active, roles := change.roles })
  | removed
      (removes : route = .remove change.userId)
      (isLeft : change.status = .left)
      (member : stateOf stored change.userId = some .active) :
      Outcome stored departed route change
        ((stored.get? change.userId).map fun member =>
          { member with state := .removed })
  | marked
      (admitsOther : route ≠ .admission change.userId)
      (isLeft : change.status = .left)
      (member : stateOf stored change.userId ≠ some .active) :
      Outcome stored departed route change (stored.get? change.userId)
  | kept
      (removesOther : route ≠ .remove change.userId)
      (isActive : change.status = .active)
      {membership : Membership}
      (found : stored.get? change.userId = some membership)
      (member : membership.state = .active)
      (same : sameRoles membership.roles change.roles = true) :
      Outcome stored departed route change (some membership)
  | changed
      (removesOther : route ≠ .remove change.userId)
      (isActive : change.status = .active)
      {membership : Membership}
      (found : stored.get? change.userId = some membership)
      (member : membership.state = .active) :
      Outcome stored departed route change
        (some { membership with roles := change.roles })

/-- Whether a change drops a holder, by what is stored. -/
def dropsBy
    (stored : OrderedMap String Membership)
    (departed : OrderedMap String Bool)
    (route : ChainRoute)
    (change : EntryChange) : Bool :=
  decide (route ≠ .admission change.userId) &&
    heldBefore stored departed change.userId &&
      !(decide (change.status = .active) && change.roles.contains .members)

/-- Whether a route removes an active member. -/
def Removes
    (stored : OrderedMap String Membership)
    (route : ChainRoute)
    (userId : String) : Prop :=
  route = .remove userId ∧ stateOf stored userId = some .active

/-- What one change writes. -/
structure ChangeWrote
    (stored : OrderedMap String Membership)
    (departed : OrderedMap String Bool)
    (route : ChainRoute)
    (change : EntryChange)
    (group after : Group) : Prop where
  rest : after =
    { group with memberships := after.memberships, seals := after.seals }
  others : ∀ userId, userId ≠ change.userId →
    after.memberships.get? userId = group.memberships.get? userId
  outcome : group.memberships.get? change.userId =
      stored.get? change.userId →
    Outcome stored departed route change
      (after.memberships.get? change.userId)
  revoked : Removes stored route change.userId →
    after.seals = group.seals.keep fun key => key.2 ≠ change.userId
  spared : ¬ Removes stored route change.userId → after.seals = group.seals

theorem get?_setMembership
    (group : Group)
    (userId other : String)
    (change : Membership → Membership) :
    (group.setMembership userId change).memberships.get? other =
      if other = userId then (group.memberships.get? other).map change
      else group.memberships.get? other := by
  rw [Group.setMembership, get?_update]
  cases group.memberships.get? other with
  | none =>
    simp
  | some member =>
    by_cases same : other = userId <;> simp [same]

@[simp] theorem memberships_revokeAccess (group : Group) (userId : String) :
    (revokeAccess group userId).memberships = group.memberships :=
  rfl

variable {userId : String} {change : EntryChange} {group : Group}

theorem stateOf_eq_some
    {state : MembershipState} :
    stateOf stored userId = some state ↔
      ∃ member, stored.get? userId = some member ∧ member.state = state := by
  simp [stateOf]

theorem heldBefore_of_not
    (member : stateOf stored userId ≠ some .active)
    (stays : departed.has userId = false) :
    heldBefore stored departed userId = false := by
  have unlisted : departed.get? userId = none := by
    rw [get?_eq_none, ← has_iff, stays]
    exact Bool.false_ne_true
  unfold heldBefore
  rw [unlisted]
  cases found : stored.get? userId with
  | none =>
    rfl
  | some membership =>
    have inactive : membership.state ≠ .active := by
      intro isActive
      exact member (stateOf_eq_some.mpr ⟨membership, found, isActive⟩)
    simp [inactive]

theorem changeWrote_self
    (spared : ¬ Removes stored route change.userId)
    (outcome : Outcome stored departed route change
      (stored.get? change.userId)) :
    ChangeWrote stored departed route change group group where
  rest := rfl
  others := fun _ _ => rfl
  outcome := by
    intro same
    rw [same]
    exact outcome
  revoked := fun removes => absurd removes spared
  spared := fun _ => rfl

theorem changeWrote_setMembership
    {write : Membership → Membership}
    (spared : ¬ Removes stored route change.userId)
    (outcome : Outcome stored departed route change
      ((stored.get? change.userId).map write)) :
    ChangeWrote stored departed route change group
      (group.setMembership change.userId write) where
  rest := rfl
  others := by
    intro userId other
    rw [get?_setMembership, if_neg other]
  outcome := by
    intro same
    rw [get?_setMembership, if_pos rfl, same]
    exact outcome
  revoked := fun removes => absurd removes spared
  spared := fun _ => rfl

/-- What applying one change writes, and whether it drops a holder. -/
theorem changeWrote_of_applyChange
    {group after : Group}
    {before drops : Bool}
    (applied : applyChange stored departed route (group, before) change =
      .ok (after, drops)) :
    ChangeWrote stored departed route change group after ∧
      drops = (before || dropsBy stored departed route change) := by
  unfold applyChange at applied
  dsimp only at applied
  split at applied
  · next admits =>
      simp only [bind_eq_ok, exists_unit, refuseIf_eq_ok, not_not,
        Except.ok.injEq, Prod.mk.injEq] at applied
      obtain ⟨isActive, _, rfl, rfl⟩ := applied
      refine ⟨changeWrote_setMembership ?_ (.admitted admits isActive), ?_⟩
      · rintro ⟨removes, _⟩
        rw [admits] at removes
        cases removes
      · simp [dropsBy, admits]
  · next admitsOther =>
      split at applied
      · next removes =>
          simp only [bind_eq_ok, exists_unit, refuseIf_eq_ok,
            not_not] at applied
          obtain ⟨isLeft, applied⟩ := applied
          have dropsSame : dropsBy stored departed route change =
              heldBefore stored departed change.userId := by
            simp [dropsBy, admitsOther, isLeft]
          split at applied
          · next gone =>
              simp only [Except.ok.injEq, Prod.mk.injEq] at applied
              obtain ⟨rfl, rfl⟩ := applied
              refine ⟨changeWrote_self ?_ (.marked admitsOther isLeft gone.1), ?_⟩
              · exact fun removing => gone.1 removing.2
              · rw [dropsSame]
          · simp only [bind_eq_ok, exists_unit, refuseIf_eq_ok, not_not,
              Except.ok.injEq, Prod.mk.injEq] at applied
            obtain ⟨member, rfl, rfl⟩ := applied
            refine ⟨?_, by rw [dropsSame]⟩
            have removing : Removes stored route change.userId :=
              ⟨removes, member⟩
            exact {
              rest := rfl
              others := by
                intro userId other
                have left := get?_setMembership group change.userId userId
                  fun member => { member with state := .removed }
                rw [if_neg other] at left
                exact left
              outcome := by
                intro same
                have left := get?_setMembership group change.userId
                  change.userId fun member =>
                    { member with state := .removed }
                rw [if_pos rfl, same] at left
                rw [memberships_revokeAccess, left]
                exact .removed removes isLeft member
              revoked := fun _ => rfl
              spared := fun spared => absurd removing spared }
      · next removesOther =>
          have spared : ¬ Removes stored route change.userId :=
            fun removes => removesOther removes.1
          split at applied
          · next isActive =>
              simp only [bind_eq_ok, exists_unit, refuseIf_eq_ok,
                not_not] at applied
              obtain ⟨member, applied⟩ := applied
              obtain ⟨membership, found, state⟩ := stateOf_eq_some.mp member
              have dropsSame : dropsBy stored departed route change =
                  (heldBefore stored departed change.userId &&
                    !change.roles.contains .members) := by
                simp [dropsBy, admitsOther, isActive]
              split at applied
              · next same =>
                  simp only [Except.ok.injEq, Prod.mk.injEq] at applied
                  obtain ⟨rfl, rfl⟩ := applied
                  refine ⟨changeWrote_self spared ?_, by rw [dropsSame]⟩
                  rw [found]
                  simp only [found, Option.map_some, Option.getD_some] at same
                  exact .kept removesOther isActive found state same
              · simp only [bind_eq_ok, exists_unit, refuseIf_eq_ok,
                  Except.ok.injEq, Prod.mk.injEq] at applied
                obtain ⟨_, rfl, rfl⟩ := applied
                refine ⟨changeWrote_setMembership spared ?_,
                  by rw [dropsSame]⟩
                rw [found]
                exact .changed removesOther isActive found state
          · next isInactive =>
              simp only [bind_eq_ok, exists_unit, refuseIf_eq_ok, not_or,
                Except.ok.injEq, Prod.mk.injEq] at applied
              obtain ⟨⟨member, _⟩, rfl, rfl⟩ := applied
              have isLeft : change.status = .left := by
                cases status : change.status with
                | active => exact absurd status isInactive
                | left => rfl
              refine ⟨changeWrote_self spared (.marked admitsOther isLeft member), ?_⟩
              have dropsSame : dropsBy stored departed route change =
                  heldBefore stored departed change.userId := by
                simp [dropsBy, admitsOther, isLeft]
              rw [dropsSame]
              cases listed : departed.has change.userId with
              | true =>
                rfl
              | false =>
                rw [heldBefore_of_not member listed]
                rfl

/-- What a roster's changes write. -/
structure RosterWrote
    (departed : OrderedMap String Bool)
    (route : ChainRoute)
    (changes : List EntryChange)
    (group after : Group) : Prop where
  rest : after =
    { group with memberships := after.memberships, seals := after.seals }
  others : ∀ userId, userId ∉ changes.map EntryChange.userId →
    after.memberships.get? userId = group.memberships.get? userId
  outcome : ∀ change ∈ changes,
    Outcome group.memberships departed route change
      (after.memberships.get? change.userId)
  seals : ∀ key row, after.seals.get? key = some row ↔
    group.seals.get? key = some row ∧
      ¬ (key.2 ∈ changes.map EntryChange.userId ∧
        Removes group.memberships route key.2)

/-- Changes in turn write each their own person and no other. -/
theorem changes_of_foldEach
    {changes : List EntryChange}
    {group after : Group}
    {before drops : Bool}
    (distinct : (changes.map EntryChange.userId).Nodup)
    (untouched : ∀ change ∈ changes,
      group.memberships.get? change.userId = stored.get? change.userId)
    (folded : foldEach (applyChange stored departed route) (group, before)
      changes = .ok (after, drops)) :
    after =
        { group with memberships := after.memberships, seals := after.seals } ∧
      (∀ userId, userId ∉ changes.map EntryChange.userId →
        after.memberships.get? userId = group.memberships.get? userId) ∧
      (∀ change ∈ changes,
        Outcome stored departed route change
          (after.memberships.get? change.userId)) ∧
      (∀ key row, after.seals.get? key = some row ↔
        group.seals.get? key = some row ∧
          ¬ (key.2 ∈ changes.map EntryChange.userId ∧
            Removes stored route key.2)) ∧
      drops = (before || changes.any (dropsBy stored departed route)) := by
  induction changes generalizing group before with
  | nil =>
    simp only [foldEach, Except.ok.injEq, Prod.mk.injEq] at folded
    obtain ⟨rfl, rfl⟩ := folded
    simp
  | cons change rest inductionHypothesis =>
    rw [map_cons, nodup_cons] at distinct
    simp only [foldEach, bind_eq_ok] at folded
    obtain ⟨⟨middle, held⟩, applied, folded⟩ := folded
    obtain ⟨wrote, heldSame⟩ := changeWrote_of_applyChange applied
    have restUntouched : ∀ later ∈ rest,
        middle.memberships.get? later.userId =
          stored.get? later.userId := by
      intro later member
      have other : later.userId ≠ change.userId := by
        intro same
        exact distinct.1 (same ▸ mem_map_of_mem member)
      rw [wrote.others _ other]
      exact untouched later (mem_cons_of_mem _ member)
    obtain ⟨restSame, others, outcomes, seals, dropsSame⟩ :=
      inductionHypothesis distinct.2 restUntouched folded
    refine ⟨?_, ?_, ?_, ?_, ?_⟩
    · rw [restSame, wrote.rest]
    · intro userId unlisted
      rw [map_cons, mem_cons, not_or] at unlisted
      rw [others userId unlisted.2, wrote.others userId unlisted.1]
    · intro one member
      rcases mem_cons.mp member with rfl | later
      · rw [others _ distinct.1]
        exact wrote.outcome (untouched one mem_cons_self)
      · exact outcomes one later
    · intro key row
      rw [seals]
      by_cases removes : Removes stored route change.userId
      · rw [wrote.revoked removes, get?_keep, map_cons,
          mem_cons]
        by_cases mine : key.2 = change.userId
        · simp [mine, removes]
        · simp [mine]
      · rw [wrote.spared removes, map_cons, mem_cons]
        constructor
        · rintro ⟨found, kept⟩
          refine ⟨found, ?_⟩
          rintro ⟨mine | later, removing⟩
          · exact removes (mine ▸ removing)
          · exact kept ⟨later, removing⟩
        · rintro ⟨found, kept⟩
          exact ⟨found, fun removing =>
            kept ⟨.inr removing.1, removing.2⟩⟩
    · rw [dropsSame, heldSame, any_cons, Bool.or_assoc]

theorem mem_listActiveMemberIds
    {userId : String} :
    userId ∈ listActiveMemberIds group ↔ group.isActive userId = true := by
  rw [listActiveMemberIds, mem_filter]
  refine ⟨fun member => member.2, fun member => ⟨?_, member⟩⟩
  rw [OrderedMap.mem_keys]
  cases found : group.memberships.get? userId with
  | none =>
    simp [Group.isActive, Group.activeRoles, found] at member
  | some membership =>
    exact ⟨membership, rfl⟩

theorem isActive_of_holds
    {role : GroupRole}
    (holds : group.holds userId role = true) :
    group.isActive userId = true := by
  unfold Group.holds at holds
  unfold Group.isActive
  split at holds
  · next roles found =>
      rw [found]
      rfl
  · cases holds

theorem exists_holds
    {role : GroupRole}
    (some_ : ¬ ∀ userId ∈ listActiveMemberIds group,
      group.holds userId role = false) :
    ∃ userId, group.holds userId role = true := by
  by_contra none
  refine some_ fun userId _ => ?_
  cases holds : group.holds userId role with
  | true =>
    exact absurd ⟨userId, holds⟩ none
  | false =>
    rfl

/-- A roster applied leaves a member and a payer. -/
theorem applyRoster_eq_ok
    {changes : List EntryChange}
    {group after : Group}
    {drops : Bool}
    (applied : applyRoster departed route changes group =
      .ok (after, drops)) :
    (changes.map EntryChange.userId).Nodup ∧
      RosterWrote departed route changes group after ∧
      (∃ userId, after.holds userId .members = true) ∧
      (∃ userId, after.holds userId .billing = true) ∧
      drops = changes.any (dropsBy group.memberships departed route) := by
  simp only [applyRoster, bind_eq_ok, exists_unit, refuseIf_eq_ok, not_not,
    Except.ok.injEq] at applied
  obtain ⟨distinct, _, ⟨last, held⟩, folded, signer, payer, same⟩ := applied
  simp only [Prod.mk.injEq] at same
  obtain ⟨rfl, rfl⟩ := same
  obtain ⟨rest, others, outcome, seals, dropsSame⟩ :=
    changes_of_foldEach distinct (fun _ _ => rfl) folded
  exact ⟨distinct, ⟨rest, others, outcome, seals⟩, exists_holds signer,
    exists_holds payer, by simpa using dropsSame⟩

end Groups

end HushOS
