import HushOS.Toolkit.Runs
import HushOS.Toolkit.Tables
import Mathlib.Data.List.MinMax
import Mathlib.Data.List.Sort
import Mathlib.Data.Prod.Lex
import Mathlib.Order.WithBot

namespace HushOS

open Toolkit

namespace Billing

/-!
# A family's plans

What HushOS holds of one family's plans at the payment provider, and the writes
that bring the provider's answers in.  A plan is one customer's, so no other
family's write touches its row.  Each write is one transaction under the
family's reading lock.

Of a row stand the columns these writes read.  Where the database may take any
of several rows, a write says in which order it read them.
-/

/-- A plan's id at the provider, a uuid. -/
abbrev PlanId := Nat

/-- A time, in milliseconds since the epoch. -/
abbrev Time := Nat

/-- The number of a reading of the provider. -/
abbrev ReadingStamp := Nat

/-- A plan's status at the provider. -/
inductive Status where
  | active
  | trialing
  | pastDue
  | unpaid
  | incomplete
  | paused
  | canceled
  | incompleteExpired
  deriving DecidableEq

/-- `LIVE_STATUSES`. -/
def Status.live : Status → Bool
  | .active => true
  | .trialing => true
  | .pastDue => true
  | _ => false

/-- `ENDED`. -/
def Status.ended : Status → Bool
  | .canceled => true
  | .incompleteExpired => true
  | _ => false

/-- A row of `group_billing_subscriptions`. -/
structure Plan where
  productId : String
  productUnread : Bool
  status : Status
  units : Nat
  paidUnits : Nat
  pendingUnits : Option Nat
  quotaBytes : Nat
  paidQuotaBytes : Option Nat
  currentPeriodStart : Time
  currentPeriodEnd : Time
  endedAt : Option Time
  servedSince : Option Time
  servedUntil : Option Time
  supersededAt : Option Time
  supersededBy : Option PlanId
  supersededPaidAfter : Option Time
  changedFrom : Option ReadingStamp
  deriving DecidableEq

/-- A row of `group_billing_customers`. -/
structure Customer where
  reconciledFrom : Option ReadingStamp
  changedFrom : Option ReadingStamp
  deriving DecidableEq

/-- A row of `group_storage`. -/
structure Pool where
  quotaBytes : Nat
  expiresAt : Option Time
  deriving DecidableEq

/-- A row of `groups`. -/
structure Group where
  seatLimit : Option Nat
  deriving DecidableEq

/-- A row of `personal_plan_endings`: the payments it refunds begin here. -/
structure Ending where
  paidAfter : Option Time
  deriving DecidableEq

/-- What HushOS holds of a family. -/
structure Family where
  group : Option Group
  customer : Option Customer
  pool : Option Pool
  plans : OrderedMap PlanId Plan
  endings : OrderedMap PlanId Ending

/-- A family as it is made, with a pool where plans are sold. -/
def Family.created (pooled : Bool) : Family where
  group := some { seatLimit := none }
  customer := none
  pool :=
    if pooled then some { quotaBytes := 0, expiresAt := none } else none
  plans := .empty
  endings := .empty

/-- A plan as the provider answered, its product read from the catalogue. -/
structure Snapshot where
  id : PlanId
  productId : String
  status : Status
  units : Nat
  pendingUnits : Option Nat
  /-- The places paid for, where the orders say. -/
  paidUnits : Option Nat
  quotaBytes : Nat
  currentPeriodStart : Time
  currentPeriodEnd : Time
  endedAt : Option Time
  /-- The pool of the tier paid for, if there is one, where the orders say. -/
  paidTier : Option (Option Nat)
  deriving DecidableEq

/-- A plan as the provider answered, its product one the catalogue can't read. -/
structure Unread where
  id : PlanId
  productId : String
  status : Status
  units : Nat
  currentPeriodStart : Time
  currentPeriodEnd : Time
  endedAt : Option Time
  deriving DecidableEq

/-- What a write of the provider's state did. -/
inductive Outcome where
  | applied
  | stale
  | rerun
  | gone
  deriving DecidableEq

/-- `liveGroupSubscription`: what may be the family's plan. -/
def Plan.live (plan : Plan) : Bool :=
  plan.endedAt.isNone && plan.status.live && !plan.productUnread &&
    plan.supersededAt.isNone

/-- `familyPlanOrder`: the one supplying the family, then the one running longest. -/
def Plan.rank (plan : Plan) : WithBot Nat ×ₗ Nat :=
  toLex ((plan.servedSince : WithBot Nat), plan.currentPeriodEnd)

/-- A family's plans, in the order they are read in. -/
def inOrder
    (plans : OrderedMap PlanId Plan)
    (order : List PlanId) : List (PlanId × Plan) :=
  (order ++ plans.keys).filterMap fun id =>
    (plans.get? id).map fun plan => (id, plan)

/-- The family's plan: its live one, the first of its order. -/
def familyPlan
    (plans : OrderedMap PlanId Plan)
    (order : List PlanId) : Option (PlanId × Plan) :=
  ((inOrder plans order).filter fun entry => entry.2.live).argmax
    fun entry => entry.2.rank

/-- The seats a plan allows: what was bought and paid, or a scheduled cut. -/
def seatLimitOf (plan : Plan) : Nat :=
  max 1 (min (min plan.units plan.paidUnits)
    (plan.pendingUnits.getD plan.units))

/-- The pool of a plan: the lesser of the tier paid for and the product's. -/
def poolOf (grace : Nat) : Option Plan → Pool
  | none => { quotaBytes := 0, expiresAt := none }
  | some plan =>
    { quotaBytes :=
        if plan.paidQuotaBytes.getD 0 < plan.quotaBytes then
          plan.paidQuotaBytes.getD 0
        else
          plan.quotaBytes
      expiresAt := some (plan.currentPeriodEnd + grace) }

/-- The refund cutoff of a plan nothing could be given for. -/
def unwantedPlanCutoff : Option Plan → Time
  | none => 0
  | some plan =>
    match plan.servedUntil, plan.endedAt with
    | none, _ => 0
    | some servedUntil, none => servedUntil
    | some servedUntil, some endedAt => min servedUntil endedAt

/-- A plan in the provider's list that the catalogue can't read, written. -/
def writeUnread
    (plans : OrderedMap PlanId Plan)
    (unread : Unread) : OrderedMap PlanId Plan :=
  let row := (plans.get? unread.id).getD
    { productId := unread.productId
      productUnread := true
      status := unread.status
      units := unread.units
      paidUnits := 0
      pendingUnits := none
      quotaBytes := 0
      paidQuotaBytes := some 0
      currentPeriodStart := unread.currentPeriodStart
      currentPeriodEnd := unread.currentPeriodEnd
      endedAt := unread.endedAt
      servedSince := none
      servedUntil := none
      supersededAt := none
      supersededBy := none
      supersededPaidAfter := none
      changedFrom := none }
  -- Where it stands at the provider, on any row; what it is, on one never read.
  let row :=
    { row with
      status := unread.status
      endedAt := unread.endedAt
      currentPeriodStart := unread.currentPeriodStart
      currentPeriodEnd := unread.currentPeriodEnd }
  plans.set unread.id
    (if row.productUnread then
      { row with productId := unread.productId, units := unread.units }
    else
      row)

/-- A plan's snapshot, written. -/
def writeSnapshot
    (plans : OrderedMap PlanId Plan)
    (snapshot : Snapshot) : OrderedMap PlanId Plan :=
  plans.set snapshot.id
    (match plans.get? snapshot.id with
    | none =>
      { productId := snapshot.productId
        productUnread := false
        status := snapshot.status
        units := snapshot.units
        -- First seen with an order unpaid, it has paid for nothing yet.
        paidUnits := min (snapshot.paidUnits.getD 0) snapshot.units
        pendingUnits := snapshot.pendingUnits
        quotaBytes := snapshot.quotaBytes
        paidQuotaBytes := some ((snapshot.paidTier.getD none).getD 0)
        currentPeriodStart := snapshot.currentPeriodStart
        currentPeriodEnd := snapshot.currentPeriodEnd
        endedAt := snapshot.endedAt
        servedSince := none
        servedUntil := none
        supersededAt := none
        supersededBy := none
        supersededPaidAfter := none
        changedFrom := none }
    | some row =>
      { row with
        productId := snapshot.productId
        productUnread := false
        status := snapshot.status
        units := snapshot.units
        paidUnits :=
          min (snapshot.paidUnits.getD row.paidUnits) snapshot.units
        pendingUnits := snapshot.pendingUnits
        quotaBytes := snapshot.quotaBytes
        paidQuotaBytes :=
          match snapshot.paidTier with
          | none => row.paidQuotaBytes
          | some tier => some (tier.getD 0)
        currentPeriodStart := snapshot.currentPeriodStart
        currentPeriodEnd := snapshot.currentPeriodEnd
        endedAt := snapshot.endedAt })

/-- Whether a stamp read before is newer. -/
def newer (held : Option ReadingStamp) (stamp : ReadingStamp) : Bool :=
  match held with
  | none => false
  | some earlier => stamp < earlier

/-- The later of a stamp read before and this one. -/
def latest (held : Option ReadingStamp) (stamp : ReadingStamp) : ReadingStamp :=
  match held with
  | none => stamp
  | some earlier => max earlier stamp

/--
Whether a reading is still the newest, and if so recorded as such: a whole
reconcile where it names no plans, else a change of those it names.
-/
def claimGroupReading
    (family : Family)
    (readingFrom : ReadingStamp)
    (plans : Option (List PlanId)) : Outcome × Family :=
  let newerReconcile := family.customer.any fun row =>
    newer row.reconciledFrom readingFrom
  let newerChange := family.customer.any fun row =>
    newer row.changedFrom readingFrom
  if newerReconcile then
    (.stale, family)
  else
    match plans with
    | none =>
      if newerChange then
        (.rerun, family)
      else
        (.applied,
          { family with
            customer := family.customer.map fun row =>
              { row with reconciledFrom := some readingFrom } })
    | some plans =>
      if plans.any fun id => (family.plans.get? id).any fun row =>
          newer row.changedFrom readingFrom then
        (.stale, family)
      else
        (.applied,
          { family with
            customer := family.customer.map fun row =>
              { row with
                changedFrom :=
                  some (latest row.changedFrom readingFrom) } })

/-- A change's plans hold its reading, once written. -/
def markChanged
    (plans : OrderedMap PlanId Plan)
    (ids : List PlanId)
    (readingFrom : ReadingStamp) : OrderedMap PlanId Plan :=
  plans.update (fun id _ => id ∈ ids) fun row =>
    { row with changedFrom := some (latest row.changedFrom readingFrom) }

/-- A plan that stops supplying the family. -/
def Plan.stop (now : Time) (row : Plan) : Plan :=
  { row with
    servedSince := none
    servedUntil := row.servedUntil.map fun servedUntil => min servedUntil now }

/-- The plan that supplies the family, from now or from before. -/
def Plan.serve (now : Time) (row : Plan) : Plan :=
  { row with
    servedSince := some (row.servedSince.getD now)
    servedUntil :=
      if row.status = .active || row.status = .trialing then
        some (max (row.servedUntil.getD 0) row.currentPeriodEnd)
      else
        row.servedUntil }

/-- Tenure: the family's plan serves, and every other row of the family stops. -/
def settleTenure
    (plans : OrderedMap PlanId Plan)
    (order : List PlanId)
    (now : Time) : Option (PlanId × Plan) × OrderedMap PlanId Plan :=
  match familyPlan plans order with
  | none =>
    (none,
      plans.update (fun _ row => row.servedSince.isSome) (Plan.stop now))
  | some (planId, plan) =>
    (some (planId, plan),
      (plans.update
        (fun id row => row.servedSince.isSome && id ≠ planId)
        (Plan.stop now)).update
        (fun id _ => id = planId) (Plan.serve now))

/-- What a reading gives `applyGroupState`. -/
structure Reading where
  /-- Whether the provider knows the family as a customer. -/
  customer : Bool
  subscriptions : List Snapshot
  /-- Everything the provider has, or one plan as a change returned it. -/
  complete : Bool
  keepIds : List PlanId
  unread : List Unread
  readingFrom : ReadingStamp
  /-- Every live plan this reading saw, with the provider's creation time. -/
  cure : Option (List (PlanId × Nat))
  sweepIds : Option (List PlanId)
  /-- The database's clock, the server's, and the order rows are read in. -/
  now : Time
  clock : Time
  order : List PlanId
  deriving DecidableEq

/-- The refund cutoffs of the plans a cure may end, from their rows before it. -/
def cutoffOf
    (plans : OrderedMap PlanId Plan)
    (id : PlanId) : Time :=
  unwantedPlanCutoff (plans.get? id)

/-- The creation time a cure was given for a plan, the last one given. -/
def createdAt (seen : List (PlanId × Nat)) (id : PlanId) : Option Nat :=
  (seen.reverse.find? fun entry => entry.1 = id).map Prod.snd

/-- The order of a cure: who serves, then the oldest, then by id. -/
def cureRank
    (seen : List (PlanId × Nat))
    (entry : PlanId × Plan) : (WithBot Nat)ᵒᵈ ×ₗ Nat ×ₗ Nat :=
  toLex (OrderDual.toDual (entry.2.servedSince : WithBot Nat),
    toLex ((createdAt seen entry.1).getD 0, entry.1))

/-- A row marked superseded by the plan kept. -/
def Plan.mark
    (kept : PlanId)
    (paidAfter clock : Time)
    (row : Plan) : Plan :=
  { row with
    supersededAt := some clock
    supersededBy := some kept
    supersededPaidAfter := some paidAfter }

/-- A plan marked superseded, unless it is already. -/
def supersede
    (plans : OrderedMap PlanId Plan)
    (id kept : PlanId)
    (paidAfter clock : Time) : OrderedMap PlanId Plan :=
  plans.update (fun other row => other = id && row.supersededAt.isNone)
    (Plan.mark kept paidAfter clock)

/-- The live plans a cure saw, the one it keeps first. -/
def cureOrder
    (plans : OrderedMap PlanId Plan)
    (seen : List (PlanId × Nat)) : List (PlanId × Plan) :=
  (plans.entries.filter fun entry =>
    entry.2.live && (createdAt seen entry.1).isSome).insertionSort
      fun first second => cureRank seen first ≤ cureRank seen second

/-- A plan beside the one kept: marked, with its cutoff, and its ending begun. -/
def endBeside
    (before : OrderedMap PlanId Plan)
    (kept : PlanId)
    (clock : Time)
    (family : Family)
    (other : PlanId × Plan) : Family :=
  let paidAfter := cutoffOf before other.1
  { family with
    plans := supersede family.plans other.1 kept paidAfter clock
    endings :=
      if family.endings.has other.1 then
        family.endings
      else
        family.endings.set other.1 { paidAfter := some paidAfter } }

/-- A family with more than one live plan keeps one; the others are marked. -/
def supersedeOthers
    (family : Family)
    (before : OrderedMap PlanId Plan)
    (seen : List (PlanId × Nat))
    (clock : Time) : Family :=
  if seen.length < 2 then
    family
  else
    match cureOrder family.plans seen with
    | [] => family
    | (kept, _) :: others =>
      others.foldl (endBeside before kept clock) family

/-- Kept as not ended: what the provider answered for and hasn't ended. -/
def Reading.keptIds (reading : Reading) : List PlanId :=
  ((reading.subscriptions.filter fun snapshot =>
    snapshot.endedAt.isNone && !snapshot.status.ended).map Snapshot.id) ++
    reading.keepIds

/-- What a whole reading did not find ends here. -/
def sweep
    (plans : OrderedMap PlanId Plan)
    (reading : Reading) : OrderedMap PlanId Plan :=
  if reading.complete && reading.sweepIds.all fun ids => !ids.isEmpty then
    plans.update
      (fun id row => row.endedAt.isNone && id ∉ reading.keptIds &&
        reading.sweepIds.all fun ids => id ∈ ids)
      fun row =>
        { row with
          status := if row.status.live then .canceled else row.status
          endedAt := some reading.now }
  else
    plans

/-- The plans of a reading, written. -/
def writePlans
    (plans : OrderedMap PlanId Plan)
    (reading : Reading) : OrderedMap PlanId Plan :=
  let plans := reading.unread.foldl writeUnread plans
  let plans := reading.subscriptions.foldl writeSnapshot plans
  let plans :=
    if reading.complete then
      plans
    else
      markChanged plans (reading.subscriptions.map Snapshot.id)
        reading.readingFrom
  sweep plans reading

/-- The family's places and pool, from its plan. -/
def project
    (grace : Nat)
    (family : Family)
    (plan : Option Plan) : Family :=
  { family with
    group := some { seatLimit := plan.map seatLimitOf }
    pool := some (poolOf grace plan) }

/-- A customer row, where the provider has one. -/
def upsertCustomer (family : Family) (reading : Reading) : Family :=
  if reading.customer && family.customer.isNone then
    { family with
      customer := some
        (if reading.complete then
          { reconciledFrom := some reading.readingFrom, changedFrom := none }
        else
          { reconciledFrom := none, changedFrom := some reading.readingFrom }) }
  else
    family

/-- What a reading writes before tenure is settled. -/
def writeReading (family : Family) (reading : Reading) : Family :=
  let before := family.plans
  let family := upsertCustomer family reading
  let family := { family with plans := writePlans family.plans reading }
  match reading.cure with
  | none => family
  | some seen => supersedeOthers family before seen reading.clock

/-- The provider's answer replaces what is known, and the plan is projected. -/
def applyGroupState
    (grace : Nat)
    (family : Family)
    (reading : Reading) : Outcome × Family :=
  match family.group with
  | none => (.gone, family)
  | some _ =>
    let changed := reading.subscriptions.map Snapshot.id
    match claimGroupReading family reading.readingFrom
        (if reading.complete then none else some changed) with
    | (.applied, claimed) =>
      let family := writeReading claimed reading
      let (plan, plans) := settleTenure family.plans reading.order
        reading.now
      (.applied,
        project grace { family with plans := plans }
          (plan.map Prod.snd))
    | (outcome, family) => (outcome, family)

/-- A lapsed plan the lookup read, its product unread, written as a change. -/
def recordUnreadGroupSubscription
    (family : Family)
    (unread : Unread)
    (readingFrom : ReadingStamp)
    (order : List PlanId)
    (now : Time) : Outcome × Family :=
  match claimGroupReading family readingFrom (some [unread.id]) with
  | (.applied, family) =>
    let plans := markChanged (writeUnread family.plans unread) [unread.id]
      readingFrom
    (.applied, { family with plans := (settleTenure plans order now).2 })
  | (outcome, family) => (outcome, family)

/-- An order of a plan at the provider. -/
structure Order where
  createdAt : Time
  paid : Bool
  deriving DecidableEq

/-- From when a marked plan's payments are refunded: what its ending says, first. -/
def refundedFrom (family : Family) (id : PlanId) (row : Plan) : Time :=
  ((family.endings.get? id).bind Ending.paidAfter).getD
    (row.supersededPaidAfter.getD 0)

/-- The orders noted to refund whole, of a plan marked superseded. -/
def ordersToRefund
    (family : Family)
    (id : PlanId)
    (row : Plan)
    (orders : List Order) : List Order :=
  orders.filter fun order =>
    order.paid && refundedFrom family id row ≤ order.createdAt

/-- An ending begun for a plan, its cutoff written once. -/
def beginEnding
    (family : Family)
    (id : PlanId)
    (paidAfter : Option Time) : Family :=
  { family with
    endings := family.endings.set id
      { paidAfter :=
          ((family.endings.get? id).bind Ending.paidAfter).or paidAfter } }

/-- A write to what HushOS holds of a family. -/
inductive Op where
  /-- A reconcile's, or one plan's change. -/
  | apply (reading : Reading)
  /-- The lapsed-plan lookup's. -/
  | recordUnread
      (unread : Unread)
      (readingFrom : ReadingStamp)
      (order : List PlanId)
      (now : Time)
  /-- A customer is made for the family before its checkout. -/
  | ensureCustomer
  /-- A lapsed plan's ending is begun. -/
  | endLapsed (id : PlanId)
  /-- A marked plan's ending is begun, or taken over, from its cutoff. -/
  | endSuperseded (id : PlanId)
  /-- A purged family's plan's ending is begun. -/
  | endOrphaned (id : PlanId) (paidAfter : Time)
  /-- A dissolved family is purged. -/
  | purge
  deriving DecidableEq

/-- The family after a write. -/
def step (grace : Nat) (family : Family) : Op → Family
  | .apply reading => (applyGroupState grace family reading).2
  | .recordUnread unread readingFrom order now =>
    (recordUnreadGroupSubscription family unread readingFrom order now).2
  | .ensureCustomer =>
    if family.customer.isNone then
      { family with
        customer := some { reconciledFrom := none, changedFrom := none } }
    else
      family
  | .endLapsed id => beginEnding family id none
  | .endSuperseded id =>
    match family.plans.get? id with
    | none => family
    | some row =>
      if row.supersededAt.isSome then
        beginEnding family id (some (row.supersededPaidAfter.getD 0))
      else
        family
  | .endOrphaned id paidAfter =>
    if family.group.isNone then
      beginEnding family id (some paidAfter)
    else
      family
  | .purge => { family with group := none, pool := none }

/-- The family after a run of writes. -/
def run (grace : Nat) (family : Family) (ops : List Op) : Family :=
  Runs.run (step grace) family ops

end Billing

end HushOS
