import HushOS.Billing.Cures
import HushOS.Billing.Readings

namespace HushOS

open Toolkit List OrderedMap

namespace Billing

/-!
# A family's plans, mirrored

A family's readings of the provider as its code makes them: a whole reconcile
lists the plans the mirror holds and asks of each, a change asks of its own,
and both write what they were answered through `applyGroupState`.

What a row says is what the provider answered for its plan; the readings'
numbers keep the marks that judge them in step.
-/

/-- A family plan's product as the catalogue reads it, and what is paid. -/
structure Priced where
  includedMembers : Nat
  quotaBytes : Nat
  pendingUnits : Option Nat
  /-- Whether no order waits. -/
  paid : Bool
  /-- `TierState`: the pool of the tier paid for, where it is known. -/
  tier : Option (Option Nat)
  deriving DecidableEq

/-- `snapshotOf`. -/
def snapshotOf
    (id : PlanId)
    (subscription : Subscription)
    (plan : Priced) : Snapshot :=
  let units := subscription.units.getD plan.includedMembers
  { id := id
    productId := subscription.productId
    status := subscription.status
    units := units
    paidUnits := if plan.paid then some units else none
    pendingUnits := plan.pendingUnits
    paidTier := plan.tier
    quotaBytes := plan.quotaBytes
    currentPeriodStart := subscription.currentPeriodStart
    currentPeriodEnd := subscription.currentPeriodEnd
    endedAt := subscription.endedAt }

/-- `unreadOf`. -/
def unreadOf (id : PlanId) (subscription : Subscription) : Unread where
  id := id
  productId := subscription.productId
  status := subscription.status
  units := subscription.units.getD 1
  currentPeriodStart := subscription.currentPeriodStart
  currentPeriodEnd := subscription.currentPeriodEnd
  endedAt := subscription.endedAt

/-- The snapshot of a plan whose product reads. -/
def Seen.snapshot? (id : PlanId) (seen : Seen Priced) : Option Snapshot :=
  seen.held.bind fun subscription =>
    seen.product.map (snapshotOf id subscription)

/-- A plan whose product the catalogue can't read. -/
def Seen.unread? (id : PlanId) (seen : Seen Priced) : Option Unread :=
  match seen.product with
  | none => seen.held.map (unreadOf id)
  | some _ => none

/-- A plan whose product can't be read, which the provider hasn't ended. -/
def Seen.unresolved? (id : PlanId) (seen : Seen Priced) : Option PlanId :=
  (seen.unread? id).bind fun unread =>
    if unread.endedAt.isNone && !unread.status.ended then some id else none

/-- What a write is given beside what its reading was answered. -/
structure Extra where
  cure : Option (List (PlanId × Nat))
  now : Time
  clock : Time
  order : List PlanId

/-- What a reading gives `applyGroupState`. -/
def Flight.reading
    (flight : Flight Priced)
    (stamp : ReadingStamp)
    (extra : Extra) : Reading where
  customer := flight.known
  subscriptions := flight.seen.entries.filterMap fun entry =>
    entry.2.snapshot? entry.1
  complete := flight.plan.isNone
  keepIds := flight.seen.entries.filterMap fun entry =>
    entry.2.unresolved? entry.1
  unread := flight.seen.entries.filterMap fun entry =>
    entry.2.unread? entry.1
  readingFrom := stamp
  cure := if flight.plan.isNone then extra.cure else none
  sweepIds := flight.mirrored
  now := extra.now
  clock := extra.clock
  order := extra.order

/-- What a reading writes: a change of an unread product as the lookup does. -/
def familyWrite
    (grace : Nat)
    (family : Family)
    (flight : Flight Priced)
    (stamp : ReadingStamp)
    (extra : Extra) : Outcome × Family :=
  match flight.plan.bind fun id =>
      (flight.seen.get? id).bind (Seen.unread? id) with
  | some unread =>
    recordUnreadGroupSubscription family unread stamp extra.order extra.now
  | none => applyGroupState grace family (flight.reading stamp extra)

/-- The answers a row has after a reading wrote. -/
def familySource
    (family : Family)
    (flight : Flight Priced)
    (id : PlanId)
    (source : Option Source) : Option Source :=
  match flight.seen.get? id with
  | none => source
  | some seen =>
    match seen.held with
    | some _ =>
      some
        { standing := seen.answer
          period := seen.answer
          -- A product once read is kept while it can't be.
          product :=
            if seen.product.isSome ||
                (family.plans.get? id).all Plan.productUnread then
              seen.answer
            else
              (source.map Source.product).getD seen.answer }
    | none =>
      -- Gone at the provider: ended here, if it was listed unended.
      if flight.mirrored.any (id ∈ ·) &&
          (family.plans.get? id).any fun row => row.endedAt.isNone then
        source.map fun source => { source with standing := seen.answer }
      else
        source

/-- A write no reading of the provider makes. -/
def beside (grace : Nat) (family : Family) : Op → Family
  | .apply _ => family
  | .recordUnread _ _ _ _ => family
  | op => step grace family op

/-- Whether no newer mark stands against a reading of a family. -/
def familyCurrent
    (family : Family)
    (flight : Flight Priced)
    (stamp : ReadingStamp) : Bool :=
  !(family.customer.any fun row => newer row.reconciledFrom stamp) &&
    match flight.plan with
    | none => !family.customer.any fun row => newer row.changedFrom stamp
    | some plan =>
      !(family.plans.get? plan).any fun row => newer row.changedFrom stamp

/-- A family's readings. -/
def families (grace : Nat) : Mirror Family Priced Extra Op where
  lists := fun family flight => flight.known || family.customer.isSome
  unended := fun family =>
    (family.plans.entries.filter fun entry => entry.2.endedAt.isNone).map
      Prod.fst
  changes := fun family id => family.customer.isSome || family.plans.has id
  asks := fun flight id =>
    match flight.plan with
    | none => flight.mirrored.isSome
    | some plan => id = plan
  current := familyCurrent
  sure := fun _ _ => True
  write := familyWrite grace
  source := familySource
  other := beside grace

/-- What a row says of its plan. -/
structure Facts where
  standing : Status × Option Time
  period : Time × Time
  product : String × Nat
  unread : Bool
  changedFrom : Option ReadingStamp
  deriving DecidableEq

/-- The facts of a row. -/
def Plan.facts (row : Plan) : Facts where
  standing := (row.status, row.endedAt)
  period := (row.currentPeriodStart, row.currentPeriodEnd)
  product := (row.productId, row.units)
  unread := row.productUnread
  changedFrom := row.changedFrom

/-- What a plan's row says, if it has one. -/
def factsAt (plans : OrderedMap PlanId Plan) (id : PlanId) : Option Facts :=
  (plans.get? id).map Plan.facts

/-- What a snapshot leaves a row saying. -/
def Snapshot.leave (snapshot : Snapshot) (earlier : Option Facts) : Facts where
  standing := (snapshot.status, snapshot.endedAt)
  period := (snapshot.currentPeriodStart, snapshot.currentPeriodEnd)
  product := (snapshot.productId, snapshot.units)
  unread := false
  changedFrom := earlier.bind Facts.changedFrom

/-- What an answer whose product can't be read leaves a row saying. -/
def Unread.leave (unread : Unread) (earlier : Option Facts) : Facts where
  standing := (unread.status, unread.endedAt)
  period := (unread.currentPeriodStart, unread.currentPeriodEnd)
  product :=
    match earlier with
    | none => (unread.productId, unread.units)
    | some facts =>
      if facts.unread then (unread.productId, unread.units)
      else facts.product
  unread := earlier.all Facts.unread
  changedFrom := earlier.bind Facts.changedFrom

/-- A plan ended because no reading found it. -/
def Facts.sweep (now : Time) (facts : Facts) : Facts :=
  { facts with
    standing :=
      (if facts.standing.1.live then .canceled else facts.standing.1,
        some now) }

/-- The number of a change on its plan. -/
def Facts.change (stamp : ReadingStamp) (facts : Facts) : Facts :=
  { facts with changedFrom := some (latest facts.changedFrom stamp) }

section Says

variable {plans : OrderedMap PlanId Plan}

theorem factsAt_of_found
    {id : PlanId}
    {row : Plan}
    (found : plans.get? id = some row) :
    factsAt plans id = some row.facts := by
  rw [factsAt, found, Option.map_some]

theorem factsAt_writeSnapshot
    (plans : OrderedMap PlanId Plan)
    (snapshot : Snapshot)
    (id : PlanId) :
    factsAt (writeSnapshot plans snapshot) id =
      if id = snapshot.id then some (snapshot.leave (factsAt plans id))
      else factsAt plans id := by
  rw [factsAt, writeSnapshot, get?_set]
  split
  · next same =>
      subst same
      rw [factsAt]
      cases plans.get? snapshot.id <;> rfl
  · rfl

theorem factsAt_writeUnread
    (plans : OrderedMap PlanId Plan)
    (unread : Unread)
    (id : PlanId) :
    factsAt (writeUnread plans unread) id =
      if id = unread.id then some (unread.leave (factsAt plans id))
      else factsAt plans id := by
  rw [factsAt, writeUnread, get?_set]
  split
  · next same =>
      subst same
      rw [factsAt]
      cases plans.get? unread.id with
      | none =>
        rfl
      | some row =>
        cases read : row.productUnread <;>
          simp [Plan.facts, Unread.leave, read]
  · rfl

theorem factsAt_update
    {meets : PlanId → Plan → Bool}
    {change : Plan → Plan}
    (tells : Facts → Facts)
    (when_ : PlanId → Facts → Bool)
    (same : ∀ row, (change row).facts = tells row.facts)
    (met : ∀ id row, meets id row = when_ id row.facts)
    (id : PlanId) :
    factsAt (plans.update meets change) id =
      (factsAt plans id).map fun facts =>
        if when_ id facts then tells facts else facts := by
  rw [factsAt, get?_update, factsAt]
  cases plans.get? id with
  | none =>
    rfl
  | some row =>
    simp only [Option.map_some, met]
    split
    · rw [same]
    · rfl

theorem factsAt_settleTenure
    (plans : OrderedMap PlanId Plan)
    (order : List PlanId)
    (now : Time)
    (id : PlanId) :
    factsAt (settleTenure plans order now).2 id = factsAt plans id := by
  rw [factsAt, get?_settleTenure, factsAt]
  cases plans.get? id with
  | none =>
    rfl
  | some row =>
    simp only [Option.map_some, Option.some.injEq]
    split
    · rfl
    · split <;> rfl

theorem factsAt_writeReading
    (family : Family)
    (reading : Reading)
    (id : PlanId) :
    factsAt (writeReading family reading).plans id =
      factsAt (writePlans family.plans reading) id := by
  have plain : (uncured family reading).plans =
      writePlans family.plans reading := by
    rw [uncured, (rest_upsertCustomer family reading).1]
  rcases writeReading_cases family reading with
    same | ⟨seen, kept, others, _, same⟩
  · rw [same, plain]
  · rw [same, factsAt, get?_endBeside, plain, factsAt]
    cases (writePlans family.plans reading).get? id with
    | none =>
      rfl
    | some row =>
      simp only [Option.map_some, Option.some.injEq]
      split <;> rfl

end Says

section Written

variable
  {flight : Flight Priced}
  {stamp : ReadingStamp}
  {extra : Extra}
  {plans : OrderedMap PlanId Plan}

/-- What a plan's answer leaves its row saying. -/
def Seen.leave
    (id : PlanId)
    (seen : Seen Priced)
    (earlier : Option Facts) : Option Facts :=
  match seen.held, seen.product with
  | none, _ => earlier
  | some subscription, none =>
    some ((unreadOf id subscription).leave earlier)
  | some subscription, some plan =>
    some ((snapshotOf id subscription plan).leave earlier)

/-- What a reading's answers leave a plan's row saying, if it has one. -/
def Flight.leave
    (flight : Flight Priced)
    (id : PlanId)
    (earlier : Option Facts) : Option Facts :=
  (flight.seen.get? id).elim earlier fun seen => seen.leave id earlier

theorem id_of_snapshot
    (id : PlanId)
    (seen : Seen Priced)
    (snapshot : Snapshot)
    (of_ : seen.snapshot? id = some snapshot) :
    snapshot.id = id := by
  obtain ⟨subscription, _, rest⟩ := Option.bind_eq_some_iff.mp of_
  obtain ⟨plan, _, rfl⟩ := Option.map_eq_some_iff.mp rest
  rfl

theorem id_of_unread
    (id : PlanId)
    (seen : Seen Priced)
    (unread : Unread)
    (of_ : seen.unread? id = some unread) :
    unread.id = id := by
  unfold Seen.unread? at of_
  split at of_
  · obtain ⟨subscription, _, rfl⟩ := Option.map_eq_some_iff.mp of_
    rfl
  · cases of_

/-- The snapshots of a flight leave each plan as the flight reads it. -/
theorem factsAt_answers (id : PlanId) :
    factsAt ((flight.reading stamp extra).subscriptions.foldl writeSnapshot
        ((flight.reading stamp extra).unread.foldl writeUnread plans)) id =
      flight.leave id (factsAt plans id) := by
  have onceUnread : ((flight.reading stamp extra).unread.map
      Unread.id).Nodup := nodup_select id_of_unread
  have unread := Runs.read_run factsAt
    (fun unread earlier => some (Unread.leave unread earlier))
    factsAt_writeUnread onceUnread plans id
  have once : ((flight.reading stamp extra).subscriptions.map
      Snapshot.id).Nodup := nodup_select id_of_snapshot
  have read := Runs.read_run factsAt
    (fun snapshot earlier => some (Snapshot.leave snapshot earlier))
    factsAt_writeSnapshot once
    ((flight.reading stamp extra).unread.foldl writeUnread plans) id
  rw [show (flight.reading stamp extra).unread.find? _ = _ from
    find?_select id_of_unread id] at unread
  rw [show (flight.reading stamp extra).subscriptions.find? _ = _ from
    find?_select id_of_snapshot id] at read
  refine read.trans ?_
  rw [show factsAt
    ((flight.reading stamp extra).unread.foldl writeUnread plans) id = _ from
      unread, Flight.leave]
  cases flight.seen.get? id with
  | none =>
    rfl
  | some seen =>
    obtain ⟨_, held, product⟩ := seen
    cases held <;> cases product <;> rfl

/-- The plans kept are those read as held and not ended. -/
theorem mem_keptIds {id : PlanId} :
    id ∈ (flight.reading stamp extra).keptIds ↔
      ∃ seen subscription, flight.seen.get? id = some seen ∧
        seen.held = some subscription ∧
        subscription.endedAt = none ∧ subscription.status.ended = false := by
  unfold Reading.keptIds
  rw [mem_append, mem_map]
  constructor
  · rintro (⟨snapshot, member, isId⟩ | member)
    · obtain ⟨listed, open_⟩ := mem_filter.mp member
      obtain ⟨⟨other, seen⟩, there, of_⟩ := mem_filterMap.mp listed
      have named := id_of_snapshot other seen snapshot of_
      obtain ⟨subscription, held, rest⟩ := Option.bind_eq_some_iff.mp of_
      obtain ⟨plan, _, rfl⟩ := Option.map_eq_some_iff.mp rest
      rw [Bool.and_eq_true, Option.isNone_iff_eq_none,
        Bool.not_eq_true'] at open_
      rw [← isId, named]
      exact ⟨seen, subscription, mem_entries.mp there, held, open_⟩
    · obtain ⟨⟨other, seen⟩, there, of_⟩ := mem_filterMap.mp member
      obtain ⟨unread, isUnread, rest⟩ := Option.bind_eq_some_iff.mp of_
      split at rest
      · next open_ =>
          cases rest
          rw [Bool.and_eq_true, Option.isNone_iff_eq_none,
            Bool.not_eq_true'] at open_
          unfold Seen.unread? at isUnread
          split at isUnread
          · obtain ⟨subscription, held, rfl⟩ :=
              Option.map_eq_some_iff.mp isUnread
            exact ⟨seen, subscription, mem_entries.mp there, held,
              open_⟩
          · cases isUnread
      · cases rest
  · rintro ⟨seen, subscription, found, held, open_, standing⟩
    have there := mem_entries.mpr found
    have isOpen : (subscription.endedAt.isNone &&
        !subscription.status.ended) = true := by
      rw [open_, standing]
      rfl
    cases product : seen.product with
    | none =>
      refine .inr (mem_filterMap.mpr ⟨(id, seen), there, ?_⟩)
      have isUnread : seen.unread? id = some (unreadOf id subscription) := by
        rw [Seen.unread?, product, held]
        rfl
      dsimp only
      rw [Seen.unresolved?, isUnread, Option.bind_some]
      exact if_pos isOpen
    | some plan =>
      refine .inl ⟨snapshotOf id subscription plan, ?_, rfl⟩
      refine mem_filter.mpr ⟨mem_filterMap.mpr
        ⟨(id, seen), there, ?_⟩, isOpen⟩
      dsimp only
      rw [Seen.snapshot?, held, Option.bind_some, product, Option.map_some]

/-- Whether a reconcile ends a plan it did not find. -/
def Flight.sweeps
    (flight : Flight Priced)
    (id : PlanId)
    (facts : Facts) : Bool :=
  facts.standing.2.isNone && flight.mirrored.any (id ∈ ·) &&
    !(flight.seen.get? id).any fun seen => seen.held.any fun subscription =>
      subscription.endedAt.isNone && !subscription.status.ended

/-- A reconcile writes each plan as read and sweeps what it missed. -/
theorem factsAt_reconcile
    (whole : flight.plan = none)
    (listed : flight.mirrored.isSome = true)
    (id : PlanId) :
    factsAt (writePlans plans (flight.reading stamp extra)) id =
      (flight.leave id (factsAt plans id)).map fun facts =>
        if flight.sweeps id facts then facts.sweep extra.now else facts := by
  have complete : (flight.reading stamp extra).complete = true := by
    rw [Flight.reading, whole]
    rfl
  obtain ⟨ids, mirrored⟩ := Option.isSome_iff_exists.mp listed
  have sweepIds : (flight.reading stamp extra).sweepIds = some ids := mirrored
  unfold writePlans
  dsimp only
  rw [if_pos complete, sweep]
  have kept : ∀ facts : Facts, flight.sweeps id facts =
      (facts.standing.2.isNone && (id ∉ (flight.reading stamp
        extra).keptIds : Bool) && (id ∈ ids : Bool)) := by
    intro facts
    have isKept : ((flight.seen.get? id).any fun seen =>
        seen.held.any fun subscription => subscription.endedAt.isNone &&
          !subscription.status.ended) =
        (id ∈ (flight.reading stamp extra).keptIds : Bool) := by
      rw [Bool.eq_iff_iff, decide_eq_true_iff, mem_keptIds]
      cases flight.seen.get? id with
      | none =>
        simp
      | some seen =>
        cases held : seen.held <;> simp [held]
    rw [Flight.sweeps, isKept, mirrored, Option.any_some, decide_not,
      Bool.and_assoc, Bool.and_assoc, Bool.and_comm (decide (id ∈ ids))]
  split
  · rw [factsAt_update (Facts.sweep extra.now)
        (fun id facts => facts.standing.2.isNone &&
          (id ∉ (flight.reading stamp extra).keptIds : Bool) &&
          (id ∈ ids : Bool)) (fun _ => rfl) (fun id row => ?_),
      factsAt_answers]
    · simp only [kept]
    · rw [sweepIds]
      rfl
  · next nothing =>
      rw [factsAt_answers]
      have empty : ids = [] := by
        rw [complete, Bool.true_and, sweepIds, Option.all_some,
          Bool.not_eq_true, Bool.not_eq_false'] at nothing
        exact List.isEmpty_iff.mp nothing
      simp [kept, empty]

/-- A change writes its plan as read and stamps its own change. -/
theorem factsAt_change
    {plan : PlanId}
    (change : flight.plan = some plan)
    (own : ∀ id seen, flight.seen.get? id = some seen → id = plan)
    {seen : Seen Priced}
    (found : flight.seen.get? plan = some seen)
    {snapshot : Snapshot}
    (of_ : seen.snapshot? plan = some snapshot)
    (id : PlanId) :
    factsAt (writePlans plans (flight.reading stamp extra)) id =
      (flight.leave id (factsAt plans id)).map fun facts =>
        if id = plan then facts.change stamp else facts := by
  have complete : (flight.reading stamp extra).complete = false := by
    rw [Flight.reading, change]
    rfl
  have listed : ∀ other, other ∈ (flight.reading stamp
      extra).subscriptions.map Snapshot.id ↔ other = plan := by
    intro other
    constructor
    · intro member
      obtain ⟨written, among, isOther⟩ := mem_map.mp member
      obtain ⟨⟨id, mine⟩, there, from_⟩ := mem_filterMap.mp among
      rw [← isOther, id_of_snapshot id mine written from_]
      exact own id mine (mem_entries.mp there)
    · rintro rfl
      refine mem_map.mpr ⟨snapshot, mem_filterMap.mpr
        ⟨(other, seen), mem_entries.mpr found, of_⟩, ?_⟩
      exact id_of_snapshot other seen snapshot of_
  unfold writePlans
  dsimp only
  rw [complete, if_neg Bool.false_ne_true, sweep, complete, Bool.false_and,
    if_neg Bool.false_ne_true, markChanged,
    factsAt_update (Facts.change stamp)
      (fun id _ => (id = plan : Bool)) (fun _ => rfl)
      (fun id _ => by simp only [listed]),
    factsAt_answers]
  simp only [decide_eq_true_eq]

end Written

section Marked

variable
  {family : Family}
  {stamp : ReadingStamp}

/-- A reading noted on the customer's row. -/
def Customer.note
    (whole : Bool)
    (stamp : ReadingStamp)
    (row : Customer) : Customer :=
  if whole then { row with reconciledFrom := some stamp }
  else { row with changedFrom := some (latest row.changedFrom stamp) }

theorem newer_eq_false {held : Option ReadingStamp} :
    newer held stamp = false ↔ ∀ earlier, held = some earlier →
      earlier ≤ stamp := by
  cases held with
  | none =>
    simp [newer]
  | some earlier =>
    simp [newer]

/-- An applied claim moves the customer's reading and no plan. -/
theorem claimGroupReading_applied
    {plans : Option (List PlanId)}
    (applied : (claimGroupReading family stamp plans).1 = .applied) :
    (claimGroupReading family stamp plans).2 =
        { family with
          customer :=
            family.customer.map (Customer.note plans.isNone stamp) } ∧
      (∀ customer, family.customer = some customer →
        newer customer.reconciledFrom stamp = false ∧
          (plans = none → newer customer.changedFrom stamp = false)) ∧
      ∀ ids, plans = some ids → ∀ id ∈ ids, ∀ row,
        family.plans.get? id = some row →
          newer row.changedFrom stamp = false := by
  unfold claimGroupReading at applied ⊢
  dsimp only at applied ⊢
  split at applied
  · cases applied
  · next reconciled =>
      rw [if_neg reconciled]
      have noneLater : ∀ customer, family.customer = some customer →
          newer customer.reconciledFrom stamp = false := by
        intro customer there
        rw [there, Option.any_some, Bool.not_eq_true] at reconciled
        exact reconciled
      cases plans with
      | none =>
        dsimp only at applied ⊢
        split at applied
        · cases applied
        · next changed =>
            rw [if_neg changed]
            refine ⟨rfl, fun customer there => ⟨noneLater customer there,
              fun _ => ?_⟩, fun ids listed => by cases listed⟩
            rw [there, Option.any_some, Bool.not_eq_true] at changed
            exact changed
      | some ids =>
        dsimp only at applied ⊢
        split at applied
        · cases applied
        · next changed =>
            rw [if_neg changed]
            refine ⟨rfl, fun customer there => ⟨noneLater customer there,
              fun none_ => by cases none_⟩, fun others listed id member row found => ?_⟩
            cases listed
            by_contra later
            refine changed (any_eq_true.mpr ⟨id, member, ?_⟩)
            rw [found, Option.any_some]
            exact (Bool.not_eq_false _).mp later

theorem customer_endBeside
    {before : OrderedMap PlanId Plan}
    {kept : PlanId}
    {clock : Time}
    (others : List (PlanId × Plan))
    (family : Family) :
    (others.foldl (endBeside before kept clock) family).customer =
      family.customer := by
  induction others generalizing family with
  | nil =>
    rfl
  | cons first rest inductionHypothesis =>
    exact inductionHypothesis _

theorem customer_writeReading (family : Family) (reading : Reading) :
    (writeReading family reading).customer =
      (upsertCustomer family reading).customer := by
  rcases writeReading_cases family reading with
    same | ⟨seen, kept, others, _, same⟩
  · rw [same]
    rfl
  · rw [same, customer_endBeside]
    rfl

/-- The customer's row after a reading: noted, or new. -/
def Customer.after
    (known whole : Bool)
    (stamp : ReadingStamp) : Option Customer → Option Customer
  | some row => some (row.note whole stamp)
  | none =>
    if known then
      some
        (if whole then { reconciledFrom := some stamp, changedFrom := none }
          else { reconciledFrom := none, changedFrom := some stamp })
    else
      none

/-- A group answer is refused whole or claimed and written. -/
theorem applyGroupState_spec
    (grace : Nat)
    (family : Family)
    (reading : Reading) :
    (applyGroupState grace family reading).1 ≠ .applied ∧
        (applyGroupState grace family reading).2 = family ∨
      (applyGroupState grace family reading).1 = .applied ∧
        (claimGroupReading family reading.readingFrom
          (if reading.complete then none
            else some (reading.subscriptions.map Snapshot.id))).1 =
              .applied ∧
        (applyGroupState grace family reading).2.customer =
          Customer.after reading.customer reading.complete
            reading.readingFrom family.customer ∧
        ∀ id, factsAt (applyGroupState grace family reading).2.plans id =
          factsAt (writePlans family.plans reading) id := by
  unfold applyGroupState
  cases group : family.group with
  | none =>
    exact .inl ⟨nofun, rfl⟩
  | some found =>
    dsimp only
    generalize asked : (if reading.complete then none
      else some (reading.subscriptions.map Snapshot.id)) = plans
    have whole : plans.isNone = reading.complete := by
      rw [← asked]
      cases reading.complete <;> rfl
    have cases_ := claimGroupReading_cases family reading.readingFrom plans
    have claims : (claimGroupReading family reading.readingFrom plans).1 =
        .applied → _ := claimGroupReading_applied
    generalize claimGroupReading family reading.readingFrom plans =
      claimed at cases_ claims
    obtain ⟨outcome, next⟩ := claimed
    cases outcome with
    | applied =>
      refine .inr ⟨rfl, rfl, ?_, fun id => ?_⟩
      · have same := (claims rfl).1
        dsimp only at same
        subst same
        dsimp only [project]
        rw [customer_writeReading, upsertCustomer, whole]
        cases family.customer with
        | none =>
          cases reading.customer <;> simp [Customer.after]
        | some row =>
          simp [Customer.after]
      · have same := (claims rfl).1
        dsimp only at same
        subst same
        dsimp only [project]
        rw [factsAt_settleTenure, factsAt_writeReading]
    | stale =>
      rcases cases_ with ⟨_, same⟩ | ⟨applied, _⟩
      · exact .inl ⟨nofun, same⟩
      · cases applied
    | rerun =>
      rcases cases_ with ⟨_, same⟩ | ⟨applied, _⟩
      · exact .inl ⟨nofun, same⟩
      · cases applied
    | gone =>
      rcases cases_ with ⟨_, same⟩ | ⟨applied, _⟩
      · exact .inl ⟨nofun, same⟩
      · cases applied

/-- An unread plan is refused whole or claimed and recorded. -/
theorem recordUnread_spec
    (family : Family)
    (unread : Unread)
    (stamp : ReadingStamp)
    (order : List PlanId)
    (now : Time) :
    (recordUnreadGroupSubscription family unread stamp order now).1 ≠
          .applied ∧
        (recordUnreadGroupSubscription family unread stamp order now).2 =
          family ∨
      (recordUnreadGroupSubscription family unread stamp order now).1 =
          .applied ∧
        (claimGroupReading family stamp (some [unread.id])).1 = .applied ∧
        (recordUnreadGroupSubscription family unread stamp order
            now).2.customer =
          Customer.after false false stamp family.customer ∧
        ∀ id, factsAt (recordUnreadGroupSubscription family unread stamp order
            now).2.plans id =
          if id = unread.id then
            some ((unread.leave (factsAt family.plans id)).change stamp)
          else
            factsAt family.plans id := by
  unfold recordUnreadGroupSubscription
  have cases_ := claimGroupReading_cases family stamp (some [unread.id])
  have claims : (claimGroupReading family stamp (some [unread.id])).1 =
      .applied → _ := claimGroupReading_applied
  generalize claimGroupReading family stamp (some [unread.id]) = claimed
    at cases_ claims
  obtain ⟨outcome, next⟩ := claimed
  cases outcome with
  | applied =>
    have same := (claims rfl).1
    dsimp only at same
    subst same
    refine .inr ⟨rfl, rfl, ?_, fun id => ?_⟩
    · cases family.customer <;> rfl
    · dsimp only
      rw [factsAt_settleTenure, markChanged,
        factsAt_update (Facts.change stamp)
          (fun id _ => (id = unread.id : Bool)) (fun _ => rfl)
          (fun id _ => by simp only [mem_singleton]),
        factsAt_writeUnread]
      by_cases isIt : id = unread.id <;> simp [isIt]
  | stale =>
    rcases cases_ with ⟨_, same⟩ | ⟨applied, _⟩
    · exact .inl ⟨nofun, same⟩
    · cases applied
  | rerun =>
    rcases cases_ with ⟨_, same⟩ | ⟨applied, _⟩
    · exact .inl ⟨nofun, same⟩
    · cases applied
  | gone =>
    rcases cases_ with ⟨_, same⟩ | ⟨applied, _⟩
    · exact .inl ⟨nofun, same⟩
    · cases applied

end Marked

/-- What a reading keeps of itself, and of the family it reads for. -/
structure Fit (family : Family) (flight : Flight Priced) : Prop where
  /-- A change is of a family with a customer, and asks of its own plan. -/
  change : ∀ plan, flight.plan = some plan →
    family.customer.isSome = true ∧ flight.known = false ∧
      flight.mirrored = none ∧
      ∀ id seen, flight.seen.get? id = some seen → id = plan
  /-- A reconcile goes on where there is a customer. -/
  reconcile : flight.plan = none → flight.mirrored.isSome = true →
    flight.known = true ∨ family.customer.isSome = true
  /-- It asks once it has listed. -/
  asked : flight.plan = none → ∀ id seen, flight.seen.get? id = some seen →
    flight.mirrored.isSome = true

/-- What is added to a row at the end of a write. -/
def Flight.finish
    (flight : Flight Priced)
    (stamp : ReadingStamp)
    (now : Time)
    (id : PlanId)
    (facts : Facts) : Facts :=
  match flight.plan with
  | none => if flight.sweeps id facts then facts.sweep now else facts
  | some plan => if id = plan then facts.change stamp else facts

/-- A family after a reading wrote. -/
structure Wrote
    (family : Family)
    (flight : Flight Priced)
    (stamp : ReadingStamp)
    (now : Time)
    (next : Family) : Prop where
  /-- No later reconcile was written, -/
  reconciled : ∀ customer, family.customer = some customer →
    newer customer.reconciledFrom stamp = false
  /-- nor, for a reconcile, a later change, -/
  changed : flight.plan = none → ∀ customer, family.customer = some customer →
    newer customer.changedFrom stamp = false
  /-- nor, for a change, a later one of its plan. -/
  own : ∀ plan, flight.plan = some plan → ∀ row,
    family.plans.get? plan = some row → newer row.changedFrom stamp = false
  customer : next.customer =
    Customer.after flight.known flight.plan.isNone stamp family.customer
  facts : ∀ id, factsAt next.plans id =
    (flight.leave id (factsAt family.plans id)).map
      (flight.finish stamp now id)

/-- A family's write is refused whole or writes what the flight read. -/
theorem familyWrite_spec
    (grace : Nat)
    {family : Family}
    {flight : Flight Priced}
    (fit : Fit family flight)
    (ready : flight.ready = true)
    (stamp : ReadingStamp)
    (extra : Extra) :
    (familyWrite grace family flight stamp extra).1 ≠ .applied ∧
        (familyWrite grace family flight stamp extra).2 = family ∨
      (familyWrite grace family flight stamp extra).1 = .applied ∧
        Wrote family flight stamp extra.now
          (familyWrite grace family flight stamp extra).2 := by
  unfold familyWrite
  cases plan : flight.plan with
  | none =>
    dsimp only [Option.bind_none]
    have complete : (flight.reading stamp extra).complete = true := by
      rw [Flight.reading, plan]
      rfl
    have listed : flight.mirrored.isSome = true := by
      rw [Flight.ready, plan, Bool.and_eq_true] at ready
      cases mirrored : flight.mirrored with
      | none =>
        rw [mirrored] at ready
        cases ready.2
      | some ids =>
        rfl
    rcases applyGroupState_spec grace family (flight.reading stamp extra)
      with refused | ⟨applied, claimed, customer, facts⟩
    · exact .inl refused
    · rw [complete, if_pos rfl] at claimed
      obtain ⟨_, marks, _⟩ := claimGroupReading_applied claimed
      refine .inr ⟨applied,
        { reconciled := fun row there => (marks row there).1
          changed := fun _ row there => (marks row there).2 rfl
          own := fun other isOther => by rw [plan] at isOther; cases isOther
          customer := ?_
          facts := fun id => ?_ }⟩
      · rw [customer, complete, plan]
        rfl
      · rw [facts, factsAt_reconcile plan listed]
        refine congrArg (fun change => Option.map change _) ?_
        funext facts
        rw [Flight.finish, plan]
  | some id =>
    obtain ⟨_, unknown, mirrored, only⟩ := fit.change id plan
    rw [Flight.ready, plan] at ready
    dsimp only at ready
    cases found : flight.seen.get? id with
    | none =>
      rw [found] at ready
      cases ready
    | some seen =>
      rw [found, Option.any_some] at ready
      obtain ⟨subscription, held⟩ := Option.isSome_iff_exists.mp ready
      have others : ∀ other, other ≠ id →
          flight.seen.get? other = none := by
        intro other differs
        by_contra has
        obtain ⟨mine, there⟩ := Option.ne_none_iff_exists'.mp has
        exact differs (only other mine there)
      cases product : seen.product with
      | none =>
        have unread : seen.unread? id =
            some (unreadOf id subscription) := by
          rw [Seen.unread?, product, held]
          rfl
        rw [Option.bind_some, found, Option.bind_some, unread]
        dsimp only
        rcases recordUnread_spec family (unreadOf id subscription) stamp
            extra.order extra.now with
          refused | ⟨applied, claimed, customer, facts⟩
        · exact .inl refused
        · obtain ⟨_, marks, rows⟩ := claimGroupReading_applied claimed
          refine .inr ⟨applied,
            { reconciled := fun row there => (marks row there).1
              changed := fun whole => by rw [plan] at whole; cases whole
              own := fun other isOther row there => ?_
              customer := ?_
              facts := fun other => ?_ }⟩
          · rw [plan] at isOther
            cases isOther
            exact rows _ rfl id (mem_singleton_self id) row there
          · rw [customer, unknown, plan]
            rfl
          · rw [facts]
            split
            · next same =>
                have isId : other = id := same
                subst isId
                rw [Flight.leave, found, Option.elim_some, Seen.leave,
                  held, product]
                dsimp only
                rw [Option.map_some, Flight.finish, plan]
                dsimp only
                rw [if_pos rfl]
            · next differs =>
                have apart : other ≠ id := differs
                rw [Flight.leave, others other apart, Option.elim_none]
                cases factsAt family.plans other with
                | none =>
                  rfl
                | some facts =>
                  rw [Option.map_some, Flight.finish, plan]
                  dsimp only
                  rw [if_neg apart]
      | some priced =>
        have unread : seen.unread? id = none := by
          rw [Seen.unread?, product]
        have of_ : seen.snapshot? id =
            some (snapshotOf id subscription priced) := by
          rw [Seen.snapshot?, held, Option.bind_some, product,
            Option.map_some]
        rw [Option.bind_some, found, Option.bind_some, unread]
        dsimp only
        have complete : (flight.reading stamp extra).complete =
            false := by
          rw [Flight.reading, plan]
          rfl
        rcases applyGroupState_spec grace family
            (flight.reading stamp extra) with
          refused | ⟨applied, claimed, customer, facts⟩
        · exact .inl refused
        · rw [complete, if_neg Bool.false_ne_true] at claimed
          obtain ⟨_, marks, rows⟩ := claimGroupReading_applied claimed
          refine .inr ⟨applied,
            { reconciled := fun row there => (marks row there).1
              changed := fun whole => by rw [plan] at whole; cases whole
              own := fun other isOther row there => ?_
              customer := ?_
              facts := fun other => ?_ }⟩
          · rw [plan] at isOther
            cases isOther
            refine rows _ rfl id (mem_map.mpr
              ⟨snapshotOf id subscription priced,
                mem_filterMap.mpr ⟨(id, seen),
                  mem_entries.mpr found, of_⟩, rfl⟩) row there
          · rw [customer, complete, plan]
            rfl
          · rw [facts, factsAt_change plan only found of_]
            refine congrArg (fun change => Option.map change _) ?_
            funext facts
            rw [Flight.finish, plan]

end Billing

end HushOS
