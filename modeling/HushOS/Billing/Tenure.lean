import HushOS.Billing.Plans
import Mathlib.Tactic.Common

namespace HushOS

open Toolkit List OrderedMap

namespace Billing

/-!
# Tenure

Whatever is written, one row of a family serves, its live plan, and the places
and the pool are that plan's: except after the lapsed-plan lookup's write, which
settles who serves but does not project it.
-/

section FamilyPlan

variable {plans : OrderedMap PlanId Plan} {order : List PlanId}
  {id : PlanId} {row : Plan}

theorem mem_inOrder {entry : PlanId × Plan} :
    entry ∈ inOrder plans order ↔ plans.get? entry.1 = some entry.2 := by
  constructor
  · intro member
    obtain ⟨id, _, found⟩ := mem_filterMap.mp member
    obtain ⟨plan, there, same⟩ := Option.map_eq_some_iff.mp found
    cases same
    exact there
  · intro found
    refine mem_filterMap.mpr ⟨entry.1, ?_, ?_⟩
    · exact mem_append_right _ (OrderedMap.mem_keys.mpr ⟨_, found⟩)
    · rw [found]
      rfl

theorem familyPlan_eq_none
    (none_ : ∀ id row, plans.get? id = some row → row.live = false) :
    familyPlan plans order = none := by
  refine argmax_eq_none.mpr (filter_eq_nil_iff.mpr ?_)
  intro entry member
  rw [none_ entry.1 entry.2 (mem_inOrder.mp member)]
  exact Bool.false_ne_true

theorem familyPlan_eq_some
    (found : familyPlan plans order = some (id, row)) :
    plans.get? id = some row ∧ row.live = true ∧
      ∀ other otherRow, plans.get? other = some otherRow →
        otherRow.live = true → otherRow.rank ≤ row.rank := by
  have member := argmax_mem (Option.mem_def.mpr found)
  obtain ⟨read, live⟩ := mem_filter.mp member
  refine ⟨mem_inOrder.mp read, live, fun other otherRow there alive => ?_⟩
  have among : (other, otherRow) ∈ (inOrder plans order).filter
      fun entry => entry.2.live :=
    mem_filter.mpr ⟨mem_inOrder.mpr there, alive⟩
  exact le_of_mem_argmax
    (f := fun entry : PlanId × Plan => entry.2.rank) among found

/-- The one live plan that serves is the family's plan. -/
theorem familyPlan_of_serving
    (found : plans.get? id = some row)
    (live : row.live = true)
    (serves : row.servedSince ≠ none)
    (alone : ∀ other otherRow, plans.get? other = some otherRow →
      otherRow.live = true → otherRow.servedSince ≠ none → other = id) :
    familyPlan plans order = some (id, row) := by
  cases chosen : familyPlan plans order with
  | none =>
    have nothing := filter_eq_nil_iff.mp
      (argmax_eq_none.mp chosen) (id, row) (mem_inOrder.mpr found)
    exact absurd live nothing
  | some entry =>
    obtain ⟨other, otherRow⟩ := entry
    obtain ⟨there, alive, top⟩ := familyPlan_eq_some chosen
    have above := top id row found live
    have otherServes : otherRow.servedSince ≠ none := by
      intro stopped
      obtain ⟨since, servedSince⟩ := Option.ne_none_iff_exists'.mp serves
      rw [Plan.rank, Plan.rank, stopped, servedSince, Prod.Lex.toLex_le_toLex]
        at above
      rcases above with less | ⟨equal, _⟩
      · exact absurd less (not_lt_bot)
      · cases equal
    obtain rfl := alone other otherRow there alive otherServes
    rw [found] at there
    cases there
    rfl

end FamilyPlan

/-- One row serves at most, it is live, and a family with a live plan has one. -/
structure Settled (plans : OrderedMap PlanId Plan) : Prop where
  live : ∀ id row, plans.get? id = some row → row.servedSince ≠ none →
    row.live = true
  one : ∀ id row other otherRow, plans.get? id = some row →
    plans.get? other = some otherRow →
      row.servedSince ≠ none → otherRow.servedSince ≠ none → other = id
  some_ : ∀ id row, plans.get? id = some row → row.live = true →
    ∃ other otherRow, plans.get? other = some otherRow ∧
      otherRow.servedSince ≠ none

theorem Settled.familyPlan
    {plans : OrderedMap PlanId Plan}
    (settled : Settled plans)
    {id : PlanId}
    {row : Plan}
    (found : plans.get? id = some row)
    (serves : row.servedSince ≠ none)
    (order : List PlanId) :
    familyPlan plans order = some (id, row) :=
  familyPlan_of_serving found (settled.live id row found serves) serves
    fun other otherRow there _ otherServes =>
      settled.one id row other otherRow found there serves otherServes

theorem Settled.familyPlan_none
    {plans : OrderedMap PlanId Plan}
    (settled : Settled plans)
    (stopped : ∀ id row, plans.get? id = some row → row.servedSince = none)
    (order : List PlanId) :
    Billing.familyPlan plans order = none := by
  refine familyPlan_eq_none fun id row found => ?_
  cases live : row.live with
  | false =>
    rfl
  | true =>
    obtain ⟨other, otherRow, there, serves⟩ :=
      settled.some_ id row found live
    exact absurd (stopped other otherRow there) serves

section Settling

variable {plans : OrderedMap PlanId Plan} {order : List PlanId} {now : Time}

theorem get?_settleTenure (id : PlanId) :
    (settleTenure plans order now).2.get? id =
      (plans.get? id).map fun row =>
        if (familyPlan plans order).map Prod.fst = some id then
          row.serve now
        else if row.servedSince.isSome then
          row.stop now
        else
          row := by
  unfold settleTenure
  split
  · next chosen =>
      rw [get?_update, chosen]
      rfl
  · next planId plan chosen =>
      rw [get?_update, get?_update, chosen,
        Option.map_map]
      cases plans.get? id with
      | none =>
        rfl
      | some row =>
        by_cases same : id = planId
        · subst same
          simp
        · simp [same, Ne.symm same]

theorem settleTenure_fst :
    (settleTenure plans order now).1 = familyPlan plans order := by
  unfold settleTenure
  split
  · next chosen =>
      exact chosen.symm
  · next chosen =>
      exact chosen.symm

variable {id : PlanId}

theorem serving_settleTenure
    {row : Plan}
    (found : (settleTenure plans order now).2.get? id = some row)
    (serves : row.servedSince ≠ none) :
    ∃ plan, familyPlan plans order = some (id, plan) ∧
      row = plan.serve now := by
  rw [get?_settleTenure] at found
  obtain ⟨before, there, same⟩ := Option.map_eq_some_iff.mp found
  split at same
  · next chosen =>
      obtain ⟨entry, picked, isId⟩ := Option.map_eq_some_iff.mp chosen
      obtain ⟨other, plan⟩ := entry
      cases isId
      obtain ⟨thereToo, _, _⟩ := familyPlan_eq_some picked
      rw [there] at thereToo
      cases thereToo
      exact ⟨before, picked, same.symm⟩
  · split at same
    · exact absurd (same ▸ rfl) serves
    · next stopped =>
        subst same
        exact absurd (Option.not_isSome_iff_eq_none.mp stopped) serves

theorem familyPlan_settleTenure
    {plan : Plan}
    (chosen : familyPlan plans order = some (id, plan)) :
    (settleTenure plans order now).2.get? id = some (plan.serve now) := by
  rw [get?_settleTenure, chosen, (familyPlan_eq_some chosen).1]
  exact congrArg some (if_pos rfl)

theorem live_settleTenure
    {row : Plan}
    (found : (settleTenure plans order now).2.get? id = some row) :
    ∃ before, plans.get? id = some before ∧ before.live = row.live := by
  rw [get?_settleTenure] at found
  obtain ⟨before, there, same⟩ := Option.map_eq_some_iff.mp found
  refine ⟨before, there, ?_⟩
  rw [← same]
  split
  · rfl
  · split <;> rfl

/-- Settling the tenure leaves it settled. -/
theorem settled_settleTenure :
    Settled (settleTenure plans order now).2 where
  live := by
    intro id row found serves
    obtain ⟨plan, chosen, same⟩ := serving_settleTenure found serves
    obtain ⟨_, live, _⟩ := familyPlan_eq_some chosen
    rw [same]
    exact live
  one := by
    intro id row other otherRow found there serves otherServes
    obtain ⟨plan, chosen, _⟩ := serving_settleTenure found serves
    obtain ⟨otherPlan, otherChosen, _⟩ :=
      serving_settleTenure there otherServes
    rw [chosen] at otherChosen
    cases otherChosen
    rfl
  some_ := by
    intro id row found live
    obtain ⟨before, there, alive⟩ := live_settleTenure found
    cases chosen : familyPlan plans order with
    | none =>
      have nothing := filter_eq_nil_iff.mp
        (argmax_eq_none.mp chosen) (id, before) (mem_inOrder.mpr there)
      exact absurd (alive.trans live) nothing
    | some entry =>
      obtain ⟨other, plan⟩ := entry
      exact ⟨other, plan.serve now, familyPlan_settleTenure chosen, nofun⟩

end Settling

/-- The places and the pool a plan gives. -/
def projection (grace : Nat) (plan : Option Plan) : Option Nat × Pool :=
  (plan.map seatLimitOf, poolOf grace plan)

theorem projection_serve
    (grace : Nat)
    (now : Time)
    (plan : Option (PlanId × Plan)) :
    projection grace (plan.map fun entry => entry.2.serve now) =
      projection grace (plan.map Prod.snd) := by
  cases plan <;> rfl

/-- Settling does not change what the family is projected to have. -/
theorem projection_settleTenure
    (grace : Nat)
    (plans : OrderedMap PlanId Plan)
    (order other : List PlanId)
    (now : Time) :
    projection grace ((familyPlan (settleTenure plans order now).2 other).map
        Prod.snd) =
      projection grace ((familyPlan plans order).map Prod.snd) := by
  have settled : Settled (settleTenure plans order now).2 :=
    settled_settleTenure
  cases chosen : familyPlan plans order with
  | none =>
    have stopped : ∀ id row,
        (settleTenure plans order now).2.get? id = some row →
          row.servedSince = none := by
      intro id row found
      by_contra serves
      obtain ⟨plan, picked, _⟩ := serving_settleTenure found serves
      rw [chosen] at picked
      cases picked
    rw [settled.familyPlan_none stopped]
  | some entry =>
    obtain ⟨id, plan⟩ := entry
    have serving : (settleTenure plans order now).2.get? id =
        some (plan.serve now) := familyPlan_settleTenure chosen
    rw [settled.familyPlan serving nofun]
    exact projection_serve grace now (some (id, plan))

/-- A family's places and pool are its plan's. -/
def Projected (grace : Nat) (family : Family) : Prop :=
  ∀ group, family.group = some group → ∀ order,
    (group.seatLimit,
        family.pool.getD { quotaBytes := 0, expiresAt := none }) =
      projection grace ((familyPlan family.plans order).map Prod.snd)

theorem claimGroupReading_cases
    (family : Family)
    (readingFrom : ReadingStamp)
    (plans : Option (List PlanId)) :
    (claimGroupReading family readingFrom plans).1 ≠ .applied ∧
        (claimGroupReading family readingFrom plans).2 = family ∨
      (claimGroupReading family readingFrom plans).1 = .applied ∧
        ∃ customer, (claimGroupReading family readingFrom plans).2 =
          { family with customer := customer } := by
  unfold claimGroupReading
  dsimp only
  split
  · exact .inl ⟨by simp, rfl⟩
  · split
    · split
      · exact .inl ⟨by simp, rfl⟩
      · exact .inr ⟨rfl, _, rfl⟩
    · split
      · exact .inl ⟨by simp, rfl⟩
      · exact .inr ⟨rfl, _, rfl⟩

/-- A group answer changes nothing, or writes, settles and projects. -/
theorem applyGroupState_cases
    (grace : Nat)
    (family : Family)
    (reading : Reading) :
    (applyGroupState grace family reading).2 = family ∨
      ∃ group customer,
        family.group = some group ∧
          (applyGroupState grace family reading).2 =
            project grace
              { writeReading { family with customer := customer } reading with
                plans := (settleTenure
                  (writeReading { family with customer := customer }
                    reading).plans reading.order reading.now).2 }
              ((familyPlan (writeReading { family with customer := customer }
                reading).plans reading.order).map Prod.snd) := by
  unfold applyGroupState
  cases group : family.group with
  | none =>
    exact .inl rfl
  | some found =>
    dsimp only
    have claim := claimGroupReading_cases family reading.readingFrom
      (if reading.complete then none
        else some (reading.subscriptions.map Snapshot.id))
    generalize claimGroupReading family reading.readingFrom
      (if reading.complete then none
        else some (reading.subscriptions.map Snapshot.id)) = claimed at claim
    obtain ⟨outcome, after⟩ := claimed
    rcases claim with ⟨refused, same⟩ | ⟨applied, customer, same⟩
    · dsimp only at refused same
      subst same
      cases outcome with
      | applied => exact absurd rfl refused
      | stale => exact .inl rfl
      | rerun => exact .inl rfl
      | gone => exact .inl rfl
    · dsimp only at applied same
      subst applied same
      refine .inr ⟨found, customer, rfl, ?_⟩
      dsimp only
      rw [settleTenure_fst, ← group]

/-- An unread plan changes nothing, or is written and settled. -/
theorem recordUnread_cases
    (family : Family)
    (unread : Unread)
    (readingFrom : ReadingStamp)
    (order : List PlanId)
    (now : Time) :
    (recordUnreadGroupSubscription family unread readingFrom order now).2 =
        family ∨
      (claimGroupReading family readingFrom (some [unread.id])).1 =
          .applied ∧
        ∃ customer,
          (recordUnreadGroupSubscription family unread readingFrom order
              now).2 =
            { family with
              customer := customer
              plans := (settleTenure
                (markChanged (writeUnread family.plans unread) [unread.id]
                  readingFrom) order now).2 } := by
  unfold recordUnreadGroupSubscription
  have claim := claimGroupReading_cases family readingFrom (some [unread.id])
  generalize claimGroupReading family readingFrom (some [unread.id]) =
    claimed at claim
  obtain ⟨outcome, after⟩ := claimed
  rcases claim with ⟨refused, same⟩ | ⟨applied, customer, same⟩
  · dsimp only at refused same
    subst same
    cases outcome with
    | applied => exact absurd rfl refused
    | stale => exact .inl rfl
    | rerun => exact .inl rfl
    | gone => exact .inl rfl
  · dsimp only at applied same
    subst applied same
    exact .inr ⟨rfl, customer, rfl⟩

/-- Every operation leaves the tenure settled. -/
theorem settled_step
    {grace : Nat}
    {family : Family}
    (settled : Settled family.plans)
    (op : Op) :
    Settled (step grace family op).plans := by
  cases op with
  | apply reading =>
    dsimp only [step]
    rcases applyGroupState_cases grace family reading with
      same | ⟨group, customer, _, same⟩ <;> rw [same]
    · exact settled
    · exact settled_settleTenure
  | recordUnread unread readingFrom order now =>
    dsimp only [step]
    rcases recordUnread_cases family unread readingFrom order now with
      same | ⟨_, customer, same⟩ <;> rw [same]
    · exact settled
    · exact settled_settleTenure
  | ensureCustomer =>
    dsimp only [step]
    split <;> exact settled
  | endLapsed id =>
    exact settled
  | endSuperseded id =>
    dsimp only [step]
    split
    · exact settled
    · split <;> exact settled
  | endOrphaned id paidAfter =>
    dsimp only [step]
    split <;> exact settled
  | purge =>
    exact settled

theorem settled_empty : Settled .empty where
  live := by
    intro id row found
    rw [get?_empty] at found
    cases found
  one := by
    intro id row other otherRow found
    rw [get?_empty] at found
    cases found
  some_ := by
    intro id row found
    rw [get?_empty] at found
    cases found

/--
The lookup's write leaves what the family's plan gives: it lands on no plan the
catalogue once read; or on the one that serves, and leaves it live to the same
end; or on one that does not serve, where another does or it is not live after.
-/
def Undisturbing (family : Family) : Op → Prop
  | .recordUnread unread readingFrom _ _ =>
    family.group ≠ none →
      (claimGroupReading family readingFrom (some [unread.id])).1 =
          .applied →
        ∀ row ∈ family.plans.get? unread.id,
          row.productUnread = false → row.supersededAt = none →
            if row.servedSince.isSome then
              (unread.endedAt = none ∧ unread.status.live = true) ∧
                unread.currentPeriodEnd = row.currentPeriodEnd
            else
              (∃ entry ∈ family.plans.entries,
                  entry.2.servedSince ≠ none) ∨
                ¬ (unread.endedAt = none ∧ unread.status.live = true)
  | _ => True

instance Undisturbing.decidable (family : Family) :
    ∀ op, Decidable (Undisturbing family op)
  | .recordUnread unread readingFrom _ _ =>
    inferInstanceAs (Decidable (family.group ≠ none →
      (claimGroupReading family readingFrom (some [unread.id])).1 =
          .applied →
        ∀ row ∈ family.plans.get? unread.id,
          row.productUnread = false → row.supersededAt = none →
            if row.servedSince.isSome then
              (unread.endedAt = none ∧ unread.status.live = true) ∧
                unread.currentPeriodEnd = row.currentPeriodEnd
            else
              (∃ entry ∈ family.plans.entries,
                  entry.2.servedSince ≠ none) ∨
                ¬ (unread.endedAt = none ∧ unread.status.live = true)))
  | .apply _ => isTrue trivial
  | .ensureCustomer => isTrue trivial
  | .endLapsed _ => isTrue trivial
  | .endSuperseded _ => isTrue trivial
  | .endOrphaned _ _ => isTrue trivial
  | .purge => isTrue trivial

section Unread

variable {plans : OrderedMap PlanId Plan} {unread : Unread}
  {stamp : ReadingStamp}

theorem get?_writeUnread_of_ne
    {id : PlanId}
    (differs : id ≠ unread.id) :
    (markChanged (writeUnread plans unread) [unread.id] stamp).get? id =
      plans.get? id := by
  rw [markChanged, get?_update, writeUnread, get?_set,
    if_neg differs]
  cases plans.get? id with
  | none =>
    rfl
  | some row =>
    simp [differs]

theorem productUnread_writeUnread
    (absent : ∀ row, plans.get? unread.id = some row →
      row.productUnread = true)
    {row : Plan}
    (found : (markChanged (writeUnread plans unread) [unread.id]
      stamp).get? unread.id = some row) :
    row.productUnread = true := by
  rw [markChanged, get?_update, writeUnread, get?_set,
    if_pos rfl] at found
  cases there : plans.get? unread.id with
  | none =>
    simp only [there, Option.getD_none, ↓reduceIte, Option.map_some,
      mem_singleton, decide_true, Option.some.injEq] at found
    rw [← found]
  | some earlier =>
    have unread_ := absent earlier there
    simp only [there, Option.getD_some, unread_, ↓reduceIte,
      Option.map_some, mem_singleton, decide_true,
      Option.some.injEq] at found
    rw [← found]

theorem get?_writeUnread_self
    {earlier : Plan}
    (found : plans.get? unread.id = some earlier)
    (readable : earlier.productUnread = false) :
    (markChanged (writeUnread plans unread) [unread.id] stamp).get?
        unread.id =
      some { earlier with
        status := unread.status
        endedAt := unread.endedAt
        currentPeriodStart := unread.currentPeriodStart
        currentPeriodEnd := unread.currentPeriodEnd
        changedFrom := some (latest earlier.changedFrom stamp) } := by
  rw [markChanged, get?_update, writeUnread, get?_set,
    if_pos rfl]
  simp only [found, Option.getD_some, readable, Bool.false_eq_true,
    ↓reduceIte, Option.map_some, mem_singleton, decide_true]

end Unread

theorem Plan.live_iff {row : Plan} :
    row.live = true ↔
      row.endedAt = none ∧ row.status.live = true ∧
        row.productUnread = false ∧ row.supersededAt = none := by
  simp only [Plan.live, Bool.and_eq_true, Option.isNone_iff_eq_none,
    Bool.not_eq_true', and_assoc]

section Disturbing

variable {plans : OrderedMap PlanId Plan} {unread : Unread}
  {stamp : ReadingStamp} {order other : List PlanId}

/-- Recording another plan leaves the serving one the family's plan. -/
theorem familyPlan_beside
    (settled : Settled plans)
    {id : PlanId}
    {row : Plan}
    (found : plans.get? id = some row)
    (serves : row.servedSince ≠ none)
    (beside : id ≠ unread.id) :
    familyPlan (markChanged (writeUnread plans unread) [unread.id] stamp)
        order =
      some (id, row) := by
  refine familyPlan_of_serving ?_ (settled.live id row found serves) serves ?_
  · rw [get?_writeUnread_of_ne beside]
    exact found
  · intro another anotherRow there live anotherServes
    by_cases own : another = unread.id
    · subst own
      cases earlier : plans.get? unread.id with
      | none =>
        have never := productUnread_writeUnread
          (fun row found => by rw [earlier] at found; cases found) there
        rw [(Plan.live_iff.mp live).2.2.1] at never
        cases never
      | some before =>
        cases readable : before.productUnread with
        | true =>
          have never := productUnread_writeUnread
            (fun row found => by
              rw [earlier] at found
              cases found
              exact readable) there
          rw [(Plan.live_iff.mp live).2.2.1] at never
          cases never
        | false =>
          rw [get?_writeUnread_self earlier readable] at there
          cases there
          exact settled.one id row unread.id before found earlier serves
            anotherServes
    · rw [get?_writeUnread_of_ne own] at there
      exact settled.one id row another anotherRow found there serves
        anotherServes

/-- A serving plan recorded as live is still the family's plan. -/
theorem familyPlan_itself
    (settled : Settled plans)
    {row : Plan}
    (found : plans.get? unread.id = some row)
    (serves : row.servedSince ≠ none)
    (live : unread.endedAt = none ∧ unread.status.live = true) :
    familyPlan (markChanged (writeUnread plans unread) [unread.id] stamp)
        order =
      some (unread.id, { row with
        status := unread.status
        endedAt := unread.endedAt
        currentPeriodStart := unread.currentPeriodStart
        currentPeriodEnd := unread.currentPeriodEnd
        changedFrom := some (latest row.changedFrom stamp) }) := by
  obtain ⟨_, _, readable, unmarked⟩ :=
    Plan.live_iff.mp (settled.live unread.id row found serves)
  refine familyPlan_of_serving (get?_writeUnread_self found readable) ?_
    serves ?_
  · exact Plan.live_iff.mpr ⟨live.1, live.2, readable, unmarked⟩
  · intro another anotherRow there _ anotherServes
    by_cases own : another = unread.id
    · exact own
    · rw [get?_writeUnread_of_ne own] at there
      exact settled.one unread.id row another anotherRow found there serves
        anotherServes

/-- A record that brings no live plan leaves a planless family so. -/
theorem familyPlan_without
    (settled : Settled plans)
    (stopped : ∀ id row, plans.get? id = some row → row.servedSince = none)
    (dead : ∀ row, plans.get? unread.id = some row →
      row.productUnread = false → row.supersededAt = none →
        ¬ (unread.endedAt = none ∧ unread.status.live = true)) :
    familyPlan (markChanged (writeUnread plans unread) [unread.id] stamp)
        order = none := by
  refine familyPlan_eq_none fun id row found => ?_
  by_contra live
  obtain ⟨notEnded, liveStatus, readable, unmarked⟩ :=
    Plan.live_iff.mp (Bool.eq_true_of_not_eq_false live)
  by_cases own : id = unread.id
  · subst own
    cases earlier : plans.get? unread.id with
    | none =>
      have never := productUnread_writeUnread
        (fun row found => by rw [earlier] at found; cases found) found
      rw [readable] at never
      cases never
    | some before =>
      cases wasReadable : before.productUnread with
      | true =>
        have never := productUnread_writeUnread
          (fun row found => by
            rw [earlier] at found
            cases found
            exact wasReadable) found
        rw [readable] at never
        cases never
      | false =>
        rw [get?_writeUnread_self earlier wasReadable] at found
        cases found
        exact dead before earlier wasReadable unmarked
          ⟨notEnded, liveStatus⟩
  · rw [get?_writeUnread_of_ne own] at found
    obtain ⟨servingId, serving, there, serves⟩ :=
      settled.some_ id row found (Bool.eq_true_of_not_eq_false live)
    exact serves (stopped servingId serving there)

end Disturbing

variable {family : Family} {id : PlanId} {last : Option Time}

/-- An undisturbing operation keeps pool and places as projected. -/
theorem projected_step
    {grace : Nat}
    (settled : Settled family.plans)
    (projected : Projected grace family)
    {op : Op}
    (undisturbing : Undisturbing family op) :
    Projected grace (step grace family op) := by
  cases op with
  | apply reading =>
    dsimp only [step]
    rcases applyGroupState_cases grace family reading with
      same | ⟨group, customer, _, same⟩ <;> rw [same]
    · exact projected
    · rintro after found order
      cases found
      exact (projection_settleTenure grace _ reading.order order
        reading.now).symm
  | recordUnread unread readingFrom order now =>
    dsimp only [step]
    rcases recordUnread_cases family unread readingFrom order now with
      same | ⟨applied, customer, same⟩ <;> rw [same]
    · exact projected
    · intro group found other
      rw [projection_settleTenure]
      refine (projected group found order).trans ?_
      have hasGroup : family.group ≠ none := by
        rw [show family.group = some group from found]
        nofun
      have condition := undisturbing hasGroup applied
      by_cases serving : ∃ id row, family.plans.get? id = some row ∧
          row.servedSince ≠ none
      · obtain ⟨id, row, there, serves⟩ := serving
        rw [settled.familyPlan there serves]
        by_cases own : id = unread.id
        · subst own
          obtain ⟨_, _, readable, unmarked⟩ :=
            Plan.live_iff.mp (settled.live unread.id row there serves)
          have stays := condition row there readable unmarked
          rw [if_pos (Option.isSome_iff_ne_none.mpr serves)] at stays
          rw [familyPlan_itself settled there serves stays.1]
          simp only [projection, poolOf, Option.map_some, seatLimitOf,
            stays.2]
        · rw [familyPlan_beside settled there serves own]
      · have stopped : ∀ id row, family.plans.get? id = some row →
            row.servedSince = none := fun id row there =>
          by_contra fun serves => serving ⟨id, row, there, serves⟩
        rw [settled.familyPlan_none stopped,
          familyPlan_without settled stopped]
        intro row there readable unmarked
        have stays := condition row there readable unmarked
        rw [if_neg (by rw [stopped _ row there]; nofun)] at stays
        rcases stays with ⟨entry, listed, serves⟩ | dead
        · exact absurd
            (stopped entry.1 entry.2 (mem_entries.mp listed))
            serves
        · exact dead
  | ensureCustomer =>
    dsimp only [step]
    split <;> exact projected
  | endLapsed id =>
    exact projected
  | endSuperseded id =>
    dsimp only [step]
    split
    · exact projected
    · split <;> exact projected
  | endOrphaned id paidAfter =>
    dsimp only [step]
    split <;> exact projected
  | purge =>
    intro group found
    cases found

/-- What HushOS keeps of a plan itself, whatever the provider answers. -/
structure Own where
  servedSince : Option Time
  servedUntil : Option Time
  supersededAt : Option Time
  supersededBy : Option PlanId
  supersededPaidAfter : Option Time

/-- What HushOS keeps of a row. -/
def Plan.own (row : Plan) : Own where
  servedSince := row.servedSince
  servedUntil := row.servedUntil
  supersededAt := row.supersededAt
  supersededBy := row.supersededBy
  supersededPaidAfter := row.supersededPaidAfter

/-- What HushOS keeps of a plan, nothing where it has no row. -/
def ownAt (plans : OrderedMap PlanId Plan) (id : PlanId) : Own :=
  ((plans.get? id).map Plan.own).getD ⟨none, none, none, none, none⟩

/-- Since when a plan serves, and until when it served. -/
def tenureAt
    (plans : OrderedMap PlanId Plan)
    (id : PlanId) : Option Time × Option Time :=
  ((ownAt plans id).servedSince, (ownAt plans id).servedUntil)

theorem tenureAt_of_found
    {plans : OrderedMap PlanId Plan}
    {row : Plan}
    (found : plans.get? id = some row) :
    tenureAt plans id = (row.servedSince, row.servedUntil) := by
  rw [tenureAt, ownAt, found]
  rfl

section Written

variable {plans : OrderedMap PlanId Plan}

theorem ownAt_set
    {id : PlanId}
    {row : Plan}
    (same : row.own = ownAt plans id) :
    ownAt (plans.set id row) = ownAt plans := by
  funext other
  by_cases own : other = id
  · subst own
    rw [ownAt, get?_set, if_pos rfl, ← same]
    rfl
  · rw [ownAt, get?_set, if_neg own, ownAt]

theorem ownAt_update
    {meets : PlanId → Plan → Bool}
    {change : Plan → Plan}
    (same : ∀ row, (change row).own = row.own) :
    ownAt (plans.update meets change) = ownAt plans := by
  funext id
  rw [ownAt, get?_update, ownAt, Option.map_map]
  cases plans.get? id with
  | none =>
    rfl
  | some row =>
    simp only [Option.map_some, Option.getD_some, Function.comp_apply]
    split
    · exact same row
    · rfl

theorem ownAt_writeUnread (unread : Unread) :
    ownAt (writeUnread plans unread) = ownAt plans := by
  refine ownAt_set ?_
  rw [ownAt]
  cases plans.get? unread.id with
  | none =>
    rfl
  | some row =>
    dsimp only [Option.getD_some, Option.map_some]
    split <;> rfl

theorem ownAt_writeSnapshot (snapshot : Snapshot) :
    ownAt (writeSnapshot plans snapshot) = ownAt plans := by
  refine ownAt_set ?_
  rw [ownAt]
  cases plans.get? snapshot.id <;> rfl

theorem ownAt_markChanged
    (ids : List PlanId)
    (readingFrom : ReadingStamp) :
    ownAt (markChanged plans ids readingFrom) = ownAt plans :=
  ownAt_update fun _ => rfl

/-- Writing an answer does not move what a row owns. -/
theorem ownAt_writePlans (reading : Reading) :
    ownAt (writePlans plans reading) = ownAt plans := by
  have unread : ∀ (list : List Unread) (plans : OrderedMap PlanId Plan),
      ownAt (list.foldl writeUnread plans) = ownAt plans := by
    intro list
    induction list with
    | nil =>
      exact fun _ => rfl
    | cons first rest inductionHypothesis =>
      exact fun plans => (inductionHypothesis _).trans
        (ownAt_writeUnread first)
  have snapshots : ∀ (list : List Snapshot)
      (plans : OrderedMap PlanId Plan),
      ownAt (list.foldl writeSnapshot plans) = ownAt plans := by
    intro list
    induction list with
    | nil =>
      exact fun _ => rfl
    | cons first rest inductionHypothesis =>
      exact fun plans => (inductionHypothesis _).trans
        (ownAt_writeSnapshot first)
  have swept : ∀ plans : OrderedMap PlanId Plan,
      ownAt (sweep plans reading) = ownAt plans := by
    intro plans
    unfold sweep
    split
    · exact ownAt_update fun _ => rfl
    · rfl
  unfold writePlans
  dsimp only
  rw [swept]
  split
  · rw [snapshots, unread]
  · rw [ownAt_markChanged, snapshots, unread]

theorem tenureAt_of_ownAt
    {after : OrderedMap PlanId Plan}
    (same : ownAt after = ownAt plans) :
    tenureAt after = tenureAt plans := by
  funext id
  rw [tenureAt, same, tenureAt]

theorem tenureAt_update
    {meets : PlanId → Plan → Bool}
    {change : Plan → Plan}
    (same : ∀ row, (change row).servedSince = row.servedSince ∧
      (change row).servedUntil = row.servedUntil) :
    tenureAt (plans.update meets change) = tenureAt plans := by
  funext id
  rw [tenureAt, ownAt, get?_update, tenureAt, ownAt]
  cases plans.get? id with
  | none =>
    rfl
  | some row =>
    simp only [Option.map_some, Option.getD_some]
    split
    · exact Prod.ext (same row).1 (same row).2
    · rfl

theorem tenureAt_supersedeOthers
    (family : Family)
    (before : OrderedMap PlanId Plan)
    (seen : List (PlanId × Nat))
    (clock : Time) :
    tenureAt (supersedeOthers family before seen clock).plans =
      tenureAt family.plans := by
  have beside : ∀ (kept : PlanId) (others : List (PlanId × Plan))
      (family : Family),
      tenureAt (others.foldl (endBeside before kept clock) family).plans =
        tenureAt family.plans := by
    intro kept others
    induction others with
    | nil =>
      exact fun _ => rfl
    | cons first rest inductionHypothesis =>
      exact fun family => (inductionHypothesis _).trans
        (tenureAt_update fun _ => ⟨rfl, rfl⟩)
  unfold supersedeOthers
  split
  · rfl
  · split
    · rfl
    · next kept _ others _ =>
        exact beside kept others family

theorem tenureAt_writeReading
    (family : Family)
    (reading : Reading) :
    tenureAt (writeReading family reading).plans = tenureAt family.plans := by
  have customer : (upsertCustomer family reading).plans = family.plans := by
    unfold upsertCustomer
    split <;> rfl
  unfold writeReading
  dsimp only
  split
  · rw [tenureAt_of_ownAt (ownAt_writePlans reading), customer]
  · rw [tenureAt_supersedeOthers, tenureAt_of_ownAt (ownAt_writePlans reading),
      customer]

/-- A tenure that settling stops is cut off at its clock. -/
theorem tenureAt_settleTenure
    (order : List PlanId)
    (now : Time)
    (id : PlanId)
    (stopped : (tenureAt (settleTenure plans order now).2 id).1 = none) :
    (tenureAt (settleTenure plans order now).2 id).2 =
      if (tenureAt plans id).1.isSome then
        (tenureAt plans id).2.map fun until_ => min until_ now
      else
        (tenureAt plans id).2 := by
  rw [tenureAt, ownAt, get?_settleTenure] at stopped ⊢
  rw [tenureAt, ownAt]
  cases found : plans.get? id with
  | none =>
    rfl
  | some row =>
    rw [found] at stopped
    simp only [Option.map_some, Option.getD_some] at stopped ⊢
    split at stopped
    · cases stopped
    · next other =>
        rw [if_neg other]
        cases serves : row.servedSince.isSome with
        | true =>
          simp only [Plan.own, Plan.stop, serves, ↓reduceIte]
        | false =>
          simp only [Plan.own, serves, Bool.false_eq_true, ↓reduceIte]

end Written

/-- Whether a plan serves its family. -/
def Family.serves (family : Family) (id : PlanId) : Bool :=
  (tenureAt family.plans id).1.isSome

/-- The database's time of a write. -/
def Op.now : Op → Time
  | .apply reading => reading.now
  | .recordUnread _ _ _ now => now
  | _ => 0

/-- When a plan last stopped serving in a run of writes, if it did. -/
def lastStop
    (grace : Nat)
    (id : PlanId) : Family → List Op → Option Time → Option Time
  | _, [], last => last
  | family, op :: rest, last =>
    lastStop grace id (step grace family op) rest
      (if family.serves id && !(step grace family op).serves id then
        some op.now
      else
        last)

/-- A plan that does not serve served no later than when it last stopped. -/
def Halted
    (family : Family)
    (id : PlanId)
    (last : Option Time) : Prop :=
  family.serves id = false →
    ∀ until_, (tenureAt family.plans id).2 = some until_ →
      ∃ moment, last = some moment ∧ until_ ≤ moment

/-- Settling dates the last end of a tenure at its own clock. -/
theorem halted_settleTenure
    {family after : Family}
    (halted : Halted family id last)
    {plans : OrderedMap PlanId Plan}
    (same : tenureAt plans = tenureAt family.plans)
    {order : List PlanId}
    {now : Time}
    (settled : after.plans = (settleTenure plans order now).2) :
    Halted after id
      (if family.serves id && !after.serves id then some now else last) := by
  intro stopped until_ served
  have isNone : (tenureAt (settleTenure plans order now).2 id).1 = none := by
    rw [← settled]
    exact Option.not_isSome_iff_eq_none.mp (Bool.eq_false_iff.mp stopped)
  have tenure := tenureAt_settleTenure order now id isNone
  rw [← settled, served, same] at tenure
  rw [stopped]
  cases serves : family.serves id with
  | true =>
    have isSome : (tenureAt family.plans id).1.isSome = true := serves
    rw [if_pos isSome] at tenure
    obtain ⟨before, _, clipped⟩ := Option.map_eq_some_iff.mp tenure.symm
    refine ⟨now, rfl, ?_⟩
    rw [← clipped]
    exact Nat.min_le_right _ _
  | false =>
    have isNone : ¬ (tenureAt family.plans id).1.isSome = true :=
      Bool.eq_false_iff.mp serves
    rw [if_neg isNone] at tenure
    exact halted serves until_ tenure.symm

/-- Every operation dates the end of a tenure at its own clock. -/
theorem halted_step
    {grace : Nat}
    (halted : Halted family id last)
    (op : Op) :
    Halted (step grace family op) id
      (if family.serves id && !(step grace family op).serves id then
        some op.now
      else
        last) := by
  have kept : ∀ after : Family, after.plans = family.plans →
      Halted after id
        (if family.serves id && !after.serves id then some op.now
          else last) := by
    intro after same
    have equal : after.serves id = family.serves id := by
      rw [Family.serves, Family.serves, same]
    intro stopped until_ served
    rw [equal] at stopped
    rw [same] at served
    rw [equal, stopped]
    exact halted stopped until_ served
  cases op with
  | apply reading =>
    rcases applyGroupState_cases grace family reading with
      same | ⟨group, customer, _, same⟩
    · exact kept _ (congrArg Family.plans same)
    · refine halted_settleTenure halted ?_ (congrArg Family.plans same)
      exact tenureAt_writeReading { family with customer := customer }
        reading
  | recordUnread unread readingFrom order now =>
    rcases recordUnread_cases family unread readingFrom order now with
      same | ⟨_, customer, same⟩
    · exact kept _ (congrArg Family.plans same)
    · refine halted_settleTenure halted ?_ (congrArg Family.plans same)
      exact tenureAt_of_ownAt
        ((ownAt_markChanged _ _).trans (ownAt_writeUnread unread))
  | ensureCustomer =>
    refine kept _ ?_
    dsimp only [step]
    split <;> rfl
  | endLapsed id =>
    exact kept _ rfl
  | endSuperseded id =>
    refine kept _ ?_
    dsimp only [step]
    split
    · rfl
    · split <;> rfl
  | endOrphaned id paidAfter =>
    refine kept _ ?_
    dsimp only [step]
    split <;> rfl
  | purge =>
    exact kept _ rfl

theorem halted_run
    (grace : Nat)
    (halted : Halted family id last)
    (ops : List Op) :
    Halted (run grace family ops) id (lastStop grace id family ops last) := by
  induction ops generalizing family last with
  | nil =>
    exact halted
  | cons op rest inductionHypothesis =>
    exact inductionHypothesis (halted_step halted op)

/--
After every run of writes to a family, one plan at most serves it, the one it
has, and no other counts as serving it past the moment it last stopped; and
where no lookup's write disturbs its plan, its places and its pool are that
plan's.
-/
theorem places_and_pool
    (grace : Nat)
    (pooled : Bool)
    (ops : List Op) :
    (∀ id row, (run grace (.created pooled) ops).plans.get? id = some row →
        row.servedSince ≠ none →
          ∀ order, familyPlan (run grace (.created pooled) ops).plans order =
            some (id, row)) ∧
      (∀ id row, (run grace (.created pooled) ops).plans.get? id =
          some row →
        row.servedSince = none → ∀ until_, row.servedUntil = some until_ →
          ∃ moment,
            lastStop grace id (.created pooled) ops none = some moment ∧
              until_ ≤ moment) ∧
      (Runs.Each (step grace) Undisturbing (.created pooled) ops →
        ∀ group, (run grace (.created pooled) ops).group = some group →
          ∀ order,
            group.seatLimit =
                ((familyPlan (run grace (.created pooled) ops).plans
                  order).map fun entry => seatLimitOf entry.2) ∧
              ((run grace (.created pooled) ops).pool.getD
                  { quotaBytes := 0, expiresAt := none }) =
                poolOf grace ((familyPlan
                  (run grace (.created pooled) ops).plans order).map
                    Prod.snd)) := by
  refine ⟨fun id row found serves order => ?_,
    fun id row found stopped until_ served => ?_, fun each group there order => ?_⟩
  · have settled : Settled (run grace (.created pooled) ops).plans :=
      Runs.keeps_of_step (fun family : Family => Settled family.plans)
        (fun _ op settled => settled_step settled op) ops settled_empty
    exact settled.familyPlan found serves order
  · have start : Halted (.created pooled) id none := by
      intro _ until_ served
      cases served
    have halted := halted_run grace start ops
    refine halted ?_ until_ ?_
    · rw [Family.serves, tenureAt_of_found found, stopped]
      rfl
    · rw [tenureAt_of_found found]
      exact served
  · have both : Settled (run grace (.created pooled) ops).plans ∧
        Projected grace (run grace (.created pooled) ops) := by
      refine Runs.keeps_of_each (fun family : Family =>
        Settled family.plans ∧ Projected grace family) ?_ each
        ⟨settled_empty, ?_⟩
      · rintro family op undisturbing ⟨settled, projected⟩
        exact ⟨settled_step settled op,
          projected_step settled projected undisturbing⟩
      · intro group found order
        cases found
        have nothing : familyPlan (Family.created pooled).plans order =
            none := by
          refine settled_empty.familyPlan_none (fun id row found => ?_) order
          rw [get?_empty] at found
          cases found
        rw [nothing]
        cases pooled <;> rfl
    have equal := both.2 group there order
    rw [projection, Prod.mk.injEq] at equal
    rw [Option.map_map] at equal
    exact equal

section Reinstated

/-- A plan of four places, two hundred bytes, as the provider answers for it. -/
def boughtPlan (status : Status) : Snapshot where
  id := 1
  productId := "family"
  status := status
  units := 4
  pendingUnits := none
  paidUnits := some 4
  quotaBytes := 200
  currentPeriodStart := 100
  currentPeriodEnd := 130
  endedAt := none
  paidTier := some (some 200)

/-- A reconcile that found one plan. -/
def reconciled (stamp : ReadingStamp) (plan : Snapshot) : Reading where
  customer := true
  subscriptions := [plan]
  complete := true
  keepIds := []
  unread := []
  readingFrom := stamp
  cure := none
  sweepIds := some [1]
  now := 100 + stamp
  clock := 100 + stamp
  order := []

/-- The plan is bought, and later its payment's retries run out. -/
def lapsing : List Op :=
  [.apply (reconciled 1 (boughtPlan .active)),
    .apply (reconciled 2 (boughtPlan .unpaid))]

/-- What the lookup finds of it, its product edited since. -/
def editedPlan (status : Status) : Unread where
  id := 1
  productId := "edited"
  status := status
  units := 4
  currentPeriodStart := 100
  currentPeriodEnd := 130
  endedAt := none

/-- Its product edited since, the lookup finds it paid after all. -/
def reinstated : List Op :=
  lapsing ++ [.recordUnread (editedPlan .active) 3 [] 103]

/-- The family has its plan again, and no places. -/
theorem reinstated_stale :
    ¬ ∀ grace pooled ops group,
        (run grace (.created pooled) ops).group = some group →
          ∀ order, group.seatLimit =
            ((familyPlan (run grace (.created pooled) ops).plans
              order).map fun entry => seatLimitOf entry.2) := by
  intro all
  have group : (run 7 (.created true) reinstated).group =
      some { seatLimit := none } := by
    decide
  have limit := all 7 true reinstated _ group []
  have plan : ((familyPlan (run 7 (.created true) reinstated).plans
      []).map fun entry => seatLimitOf entry.2) = some 4 := by
    decide
  rw [plan] at limit
  cases limit

/-- The lookup finds the plan paid, and, once its retries ran out, unpaid. -/
def lookedUp : List Op :=
  [.apply (reconciled 1 (boughtPlan .active)),
    .recordUnread (editedPlan .active) 2 [] 102]

/-- Both times the places and the pool are what the family's plan gives. -/
theorem places_and_pool_lapsing :
    (run 7 (.created true) lookedUp).pool.getD
          { quotaBytes := 0, expiresAt := none } =
        { quotaBytes := 200, expiresAt := some 137 } ∧
      (run 7 (.created true) (lookedUp ++
          [.apply (reconciled 3 (boughtPlan .unpaid)),
            .recordUnread (editedPlan .unpaid) 4 [] 104])).pool.getD
          { quotaBytes := 0, expiresAt := none } =
        { quotaBytes := 0, expiresAt := none } := by
  have paid := (places_and_pool 7 true lookedUp).2.2 (by decide)
    { seatLimit := some 4 } (by decide) []
  have unpaid := (places_and_pool 7 true (lookedUp ++
    [.apply (reconciled 3 (boughtPlan .unpaid)),
      .recordUnread (editedPlan .unpaid) 4 [] 104])).2.2 (by decide)
    { seatLimit := none } (by decide) []
  exact ⟨paid.2.trans (by decide), unpaid.2.trans (by decide)⟩

end Reinstated

end Billing

end HushOS
