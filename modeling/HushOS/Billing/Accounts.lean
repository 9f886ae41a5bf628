import HushOS.Billing.Order

namespace HushOS

open Toolkit List OrderedMap

namespace Billing

/-!
# A person's plans, mirrored

A person's own plans and the storage they give.  A reconcile reads the plans the
provider's state of the customer lists and those the mirror holds unended, and
`applyCustomerState` ends every other plan the mirror holds.
-/

/-- A row of `billing_subscriptions`. -/
structure PersonalPlan where
  productId : String
  status : Status
  quotaBytes : Nat
  currentPeriodEnd : Time
  endedAt : Option Time
  deriving DecidableEq

/-- A row of `storage_entitlements`, under its plan's id. -/
structure Entitlement where
  quotaBytes : Nat
  expiresAt : Time
  revokedAt : Option Time
  deriving DecidableEq

/-- `SubscriptionSnapshot`. -/
structure PersonalSnapshot where
  id : PlanId
  plan : PersonalPlan
  deriving DecidableEq

/-- Whether a plan gives storage. -/
def PersonalSnapshot.live (snapshot : PersonalSnapshot) : Bool :=
  snapshot.plan.endedAt.isNone && snapshot.plan.status.live

/-- Whether the provider has not ended a plan. -/
def PersonalSnapshot.kept (snapshot : PersonalSnapshot) : Bool :=
  snapshot.plan.endedAt.isNone && !snapshot.plan.status.ended

/-- What HushOS holds of a person at the provider. -/
structure Person where
  /-- Whether the person has a workspace of their own. -/
  personal : Bool
  /-- The `reconciled_from` of the row of `billing_customers`. -/
  customer : Option (Option ReadingStamp)
  plans : OrderedMap PlanId PersonalPlan
  entitlements : OrderedMap PlanId Entitlement
  /-- The last snapshot written; no code reads this. -/
  last : List PersonalSnapshot

/-- A person before any plan. -/
def Person.created : Person where
  personal := true
  customer := none
  plans := .empty
  entitlements := .empty
  last := []

/-- A plan's snapshot, written. -/
def writePersonal
    (plans : OrderedMap PlanId PersonalPlan)
    (snapshot : PersonalSnapshot) : OrderedMap PlanId PersonalPlan :=
  plans.set snapshot.id snapshot.plan

/-- A live plan's storage, given. -/
def entitle
    (graceMs : Nat)
    (entitlements : OrderedMap PlanId Entitlement)
    (snapshot : PersonalSnapshot) : OrderedMap PlanId Entitlement :=
  entitlements.set snapshot.id
    { quotaBytes := snapshot.plan.quotaBytes
      expiresAt := snapshot.plan.currentPeriodEnd + graceMs
      revokedAt := none }

/-- A plan ended because the snapshot has it not. -/
def PersonalPlan.sweep (now : Time) (row : PersonalPlan) : PersonalPlan :=
  { row with
    status := if row.status.live then .canceled else row.status
    endedAt := some now }

/-- The provider's answer replaces what is known of a person's plans. -/
def applyCustomerState
    (graceMs : Nat)
    (person : Person)
    (customerId : Bool)
    (subscriptions : List PersonalSnapshot)
    (readingFrom : ReadingStamp)
    (now : Time) : Outcome × Person :=
  if !person.personal then
    (.gone, person)
  else if person.customer.any fun mark => newer mark readingFrom then
    (.stale, person)
  else
    let live := subscriptions.filter PersonalSnapshot.live
    let liveIds := live.map PersonalSnapshot.id
    let keptIds :=
      (subscriptions.filter PersonalSnapshot.kept).map PersonalSnapshot.id
    let plans := subscriptions.foldl writePersonal person.plans
    let entitlements := live.foldl (entitle graceMs) person.entitlements
    (.applied,
      { person with
        customer :=
          if customerId then some (some readingFrom)
          else person.customer.map fun _ => some readingFrom
        plans :=
          plans.update
            (fun id row => row.endedAt.isNone && id ∉ keptIds)
            (PersonalPlan.sweep now)
        entitlements :=
          entitlements.update
            (fun id row =>
              row.revokedAt.isNone && plans.has id && id ∉ liveIds)
            fun row => { row with revokedAt := some now }
        last := subscriptions })

/-- The snapshot of a plan whose product is one of HushOS's. -/
def Seen.personal?
    (id : PlanId)
    (seen : Seen Nat) : Option PersonalSnapshot :=
  seen.held.bind fun subscription =>
    seen.product.map fun quotaBytes =>
      { id := id
        plan :=
          { productId := subscription.productId
            status := subscription.status
            quotaBytes := quotaBytes
            currentPeriodEnd := subscription.currentPeriodEnd
            endedAt := subscription.endedAt } }

/-- The plans a reading gives `applyCustomerState`. -/
def Flight.personal (flight : Flight Nat) : List PersonalSnapshot :=
  flight.seen.entries.filterMap fun entry => entry.2.personal? entry.1

/-- The answers a row has after a reading wrote. -/
def personSource
    (person : Person)
    (flight : Flight Nat)
    (id : PlanId)
    (source : Option Source) : Option Source :=
  match flight.seen.get? id with
  | none => source
  | some seen =>
    match seen.held, seen.product with
    | some _, some _ =>
      some
        { standing := seen.answer
          period := seen.answer
          product := seen.answer }
    | some _, none => source
    | none, _ =>
      if (person.plans.get? id).any fun row => row.endedAt.isNone then
        source.map fun source => { source with standing := seen.answer }
      else
        source

/--
Whether a reading read every plan it may end, and each is gone or its product is
one of HushOS's.
-/
def ReadsAll (person : Person) (flight : Flight Nat) : Prop :=
  ∀ id row, person.plans.get? id = some row → row.endedAt = none →
    ∃ seen, flight.seen.get? id = some seen ∧
      (seen.held.isSome = true → seen.product.isSome = true)

/-- A person's readings, all of them whole. -/
def people (graceMs : Nat) : Mirror Person Nat Time Unit where
  lists := fun _ _ => true
  unended := fun person =>
    (person.plans.entries.filter fun entry => entry.2.endedAt.isNone).map
      Prod.fst
  changes := fun _ _ => false
  asks := fun flight id => flight.known || flight.mirrored.any (id ∈ ·)
  current := fun person _ stamp =>
    person.personal && !person.customer.any fun mark => newer mark stamp
  sure := ReadsAll
  write := fun person flight stamp now =>
    applyCustomerState graceMs person flight.known flight.personal stamp now
  source := personSource
  other := fun person _ => person

/-- What a person's row says of its plan, the provider answered. -/
structure PersonTells
    (answers : List Answer)
    (id : PlanId)
    (row : PersonalPlan)
    (source : Source) : Prop where
  standing : ∃ held, answers[source.standing]? =
      some { id := id, held := held } ∧
    Stands held (row.status, row.endedAt)
  period : ∃ subscription, answers[source.period]? =
      some { id := id, held := some subscription } ∧
    row.currentPeriodEnd = subscription.currentPeriodEnd
  product : ∃ subscription, answers[source.product]? =
      some { id := id, held := some subscription } ∧
    row.productId = subscription.productId

/-- Every storage given and not revoked is of a plan the last snapshot has live. -/
def Entitled (person : Person) : Prop :=
  ∀ id row, person.entitlements.get? id = some row → row.revokedAt = none →
    ∃ snapshot ∈ person.last, snapshot.id = id ∧ snapshot.live = true

section Person

variable {person : Person} {flight : Flight Nat} {stamp now graceMs : Nat}

theorem id_of_personal
    (id : PlanId)
    (seen : Seen Nat)
    (snapshot : PersonalSnapshot)
    (of_ : seen.personal? id = some snapshot) :
    snapshot.id = id := by
  obtain ⟨subscription, _, rest⟩ := Option.bind_eq_some_iff.mp of_
  obtain ⟨quotaBytes, _, rfl⟩ := Option.map_eq_some_iff.mp rest
  rfl

/-- What a reading's answers leave of a plan's row. -/
def Flight.personalRow
    (flight : Flight Nat)
    (id : PlanId)
    (earlier : Option PersonalPlan) : Option PersonalPlan :=
  ((flight.seen.get? id).bind (Seen.personal? id)).elim earlier fun snapshot =>
    some snapshot.plan

theorem get?_personal
    (plans : OrderedMap PlanId PersonalPlan)
    (id : PlanId) :
    (flight.personal.foldl writePersonal plans).get? id =
      flight.personalRow id (plans.get? id) := by
  have once : (flight.personal.map PersonalSnapshot.id).Nodup :=
    nodup_select id_of_personal
  have writes : ∀ (plans : OrderedMap PlanId PersonalPlan) snapshot id,
      (writePersonal plans snapshot).get? id =
        if id = PersonalSnapshot.id snapshot then some snapshot.plan
        else plans.get? id := by
    intro plans snapshot id
    rw [writePersonal, get?_set]
  have read := Runs.read_run OrderedMap.get?
    (fun (snapshot : PersonalSnapshot) _ => some snapshot.plan) writes once
    plans id
  rw [show flight.personal.find? _ = _ from
    find?_select id_of_personal id] at read
  exact read

/-- A person after a reading wrote. -/
structure WrotePerson
    (person : Person)
    (flight : Flight Nat)
    (stamp now : Nat)
    (next : Person) : Prop where
  personal : person.personal = true
  reconciled : ∀ mark, person.customer = some mark → newer mark stamp = false
  customer : next.customer =
    if flight.known then some (some stamp)
    else person.customer.map fun _ => some stamp
  plans : ∀ id, next.plans.get? id =
    (flight.personalRow id (person.plans.get? id)).map fun row =>
      if row.endedAt.isNone &&
          !(flight.seen.get? id).any fun seen =>
            (seen.personal? id).any PersonalSnapshot.kept then
        row.sweep now
      else
        row

/-- A write is refused with nothing changed, or writes what was read. -/
theorem personWrite_spec
    (graceMs : Nat)
    (person : Person)
    (flight : Flight Nat)
    (stamp now : Nat) :
    ((people graceMs).write person flight stamp now).1 ≠ .applied ∧
        ((people graceMs).write person flight stamp now).2 = person ∨
      ((people graceMs).write person flight stamp now).1 = .applied ∧
        WrotePerson person flight stamp now
          ((people graceMs).write person flight stamp now).2 := by
  dsimp only [people]
  unfold applyCustomerState
  split
  · exact .inl ⟨by simp, rfl⟩
  · next personal =>
      split
      · exact .inl ⟨by simp, rfl⟩
      · next reconciled =>
          refine .inr ⟨rfl,
            { personal := ?_
              reconciled := fun mark there => ?_
              customer := rfl
              plans := fun id => ?_ }⟩
          · rw [Bool.not_eq_true', Bool.not_eq_false] at personal
            exact personal
          · rw [there, Option.any_some, Bool.not_eq_true] at reconciled
            exact reconciled
          · dsimp only
            rw [get?_update, get?_personal]
            refine congrArg (fun change => Option.map change _) ?_
            funext row
            have kept : (id ∈ (flight.personal.filter
                PersonalSnapshot.kept).map PersonalSnapshot.id) ↔
                ((flight.seen.get? id).any fun seen =>
                  (seen.personal? id).any PersonalSnapshot.kept) = true := by
              constructor
              · intro member
                obtain ⟨snapshot, among, isId⟩ := mem_map.mp member
                obtain ⟨listed, isKept⟩ := mem_filter.mp among
                obtain ⟨⟨other, seen⟩, there, of_⟩ :=
                  mem_filterMap.mp listed
                have same := id_of_personal other seen snapshot of_
                have found := mem_entries.mp there
                rw [← same, isId] at found
                dsimp only at of_
                rw [← same, isId] at of_
                rw [found, Option.any_some, of_, Option.any_some]
                exact isKept
              · intro any
                cases found : flight.seen.get? id with
                | none =>
                  rw [found] at any
                  cases any
                | some seen =>
                  rw [found, Option.any_some] at any
                  cases of_ : seen.personal? id with
                  | none =>
                    rw [of_] at any
                    cases any
                  | some snapshot =>
                    rw [of_, Option.any_some] at any
                    refine mem_map.mpr ⟨snapshot,
                      mem_filter.mpr ⟨mem_filterMap.mpr
                        ⟨(id, seen), mem_entries.mpr found,
                          of_⟩, any⟩, id_of_personal id seen snapshot of_⟩
            simp only [kept, decide_not, Bool.decide_eq_true]

/-- What a person's reading keeps of itself and of the person. -/
structure PersonFit (person : Person) (flight : Flight Nat) : Prop where
  whole : flight.plan = none
  /-- It asked where there is a customer. -/
  asked : ∀ id seen, flight.seen.get? id = some seen →
    flight.known = true ∨ person.customer.isSome = true
  listed : ∀ ids, flight.mirrored = some ids → ∀ id ∈ ids,
    person.customer.isSome = true

theorem PersonFit.mono
    {next : Person}
    (fit : PersonFit person flight)
    (stays : person.customer.isSome = true → next.customer.isSome = true) :
    PersonFit next flight where
  whole := fit.whole
  asked := fun id seen found => (fit.asked id seen found).imp_right stays
  listed := fun ids is id member => stays (fit.listed ids is id member)

/-- Whether a person with plans has a customer. -/
def PersonBilled (person : Person) : Prop :=
  ∀ id row, person.plans.get? id = some row → person.customer.isSome = true

theorem isSome_personWrite
    (flight : Flight Nat)
    (isSome : person.customer.isSome = true) :
    ((people graceMs).write person flight stamp now).2.customer.isSome =
      true := by
  rcases personWrite_spec graceMs person flight stamp now with
    ⟨_, same⟩ | ⟨_, wrote⟩
  · rw [same]
    exact isSome
  · rw [wrote.customer]
    split
    · rfl
    · rw [Option.isSome_map]
      exact isSome

/-- The flights of a person fit the bills they were started for. -/
theorem people_fitting (graceMs : Nat) :
    (people graceMs).Fitting PersonBilled PersonFit where
  reconcile := fun person stamp known =>
    { whole := rfl
      asked := fun id seen found => by cases found
      listed := fun ids is => by cases is }
  list := fun person flight billed _ fit _ =>
    { whole := fit.whole
      asked := fit.asked
      listed := fun ids is id member => by
        cases is
        obtain ⟨⟨other, row⟩, listed, rfl⟩ := mem_map.mp member
        exact billed other row
          (mem_entries.mp (mem_filter.mp listed).1) }
  change := fun person id _ changes => by cases changes
  ask := fun person flight id seen fit asks =>
    { whole := fit.whole
      asked := fun other mine found => by
        dsimp only at found
        rw [get?_set] at found
        split at found
        · rcases Bool.or_eq_true_iff.mp asks with known | listed
          · exact .inl known
          · cases mirrored : flight.mirrored with
            | none =>
              rw [mirrored] at listed
              cases listed
            | some ids =>
              rw [mirrored, Option.any_some] at listed
              exact .inr (fit.listed ids mirrored id
                (of_decide_eq_true listed))
        · exact fit.asked other mine found
      listed := fit.listed }
  draw := fun person flight stamp fit =>
    { whole := fit.whole
      asked := fit.asked
      listed := fit.listed }
  written := fun person flight fit =>
    { whole := fit.whole
      asked := fit.asked
      listed := fit.listed }
  write := fun person flight other stamp now fit =>
    fit.mono (isSome_personWrite other)
  other := fun _ _ _ fit => fit

/-- A reading's number is no later than the mark of the last one written. -/
def PersonCovered (person : Person) (stamp : ReadingStamp) : Prop :=
  ∃ mark, person.customer = some (some mark) ∧ stamp ≤ mark

/-- The reading that wrote a part of a row. -/
def PersonWriter
    (world : World Person Nat)
    (id : PlanId)
    (answer : Nat) : Prop :=
  ∃ number flight stamp seen,
    world.flights.get? number = some flight ∧
      flight.written = true ∧
        flight.stamp = some stamp ∧
          flight.seen.get? id = some seen ∧
            seen.answer = answer ∧
              PersonCovered world.store stamp

variable {next : Person}

theorem WrotePerson.le
    (wrote : WrotePerson person flight stamp now next)
    {earlier : ReadingStamp}
    (covered : PersonCovered person earlier) :
    earlier ≤ stamp := by
  obtain ⟨mark, there, below⟩ := covered
  exact below.trans (newer_eq_false.mp (wrote.reconciled _ there) mark rfl)

theorem WrotePerson.covered
    (wrote : WrotePerson person flight stamp now next)
    {earlier : ReadingStamp}
    (covered : PersonCovered person earlier) :
    PersonCovered next earlier := by
  refine ⟨stamp, ?_, wrote.le covered⟩
  obtain ⟨mark, there, _⟩ := covered
  rw [wrote.customer, there]
  split <;> rfl

variable {id : PlanId} {seen : Seen Nat}

theorem WrotePerson.covers
    (wrote : WrotePerson person flight stamp now next)
    (fit : PersonFit person flight)
    (found : flight.seen.get? id = some seen) :
    PersonCovered next stamp := by
  refine ⟨stamp, ?_, Nat.le_refl _⟩
  rw [wrote.customer]
  split
  · rfl
  · next unknown =>
      rcases fit.asked id seen found with known | isSome
      · exact absurd known unknown
      · obtain ⟨mark, there⟩ := Option.isSome_iff_exists.mp isSome
        rw [there]
        rfl

theorem WrotePerson.untouched
    (wrote : WrotePerson person flight stamp now next)
    (reads : ReadsAll person flight)
    (unread : flight.seen.get? id = none) :
    next.plans.get? id = person.plans.get? id := by
  rw [wrote.plans, Flight.personalRow, unread, Option.bind_none,
    Option.elim_none]
  cases found : person.plans.get? id with
  | none =>
    rfl
  | some row =>
    rw [Option.map_some, if_neg]
    intro swept
    have open_ := (Bool.and_eq_true_iff.mp swept).1
    obtain ⟨seen, there, _⟩ :=
      reads id row found (Option.isNone_iff_eq_none.mp open_)
    rw [unread] at there
    cases there

/-- A plan that the sweep ends still shows its answer's state. -/
theorem stands_sweep
    {subscription : Subscription}
    {row : PersonalPlan}
    (swept : Bool)
    (status : row.status = subscription.status)
    (endedAt : row.endedAt = subscription.endedAt)
    (ended : swept = true →
      subscription.endedAt = none ∧ subscription.status.ended = true) :
    Stands (some subscription)
      ((if swept then row.sweep now else row).status,
        (if swept then row.sweep now else row).endedAt) := by
  cases swept with
  | true =>
    obtain ⟨open_, isEnded⟩ := ended rfl
    have dead : row.status.live = false := by
      rw [status]
      cases standing : subscription.status <;>
        rw [standing] at isEnded <;> first | rfl | cases isEnded
    rw [if_pos rfl]
    dsimp only [PersonalPlan.sweep]
    rw [dead, if_neg Bool.false_ne_true]
    exact ⟨status, .inr ⟨open_, isEnded, rfl⟩⟩
  | false =>
    rw [if_neg Bool.false_ne_true]
    exact ⟨status, .inl endedAt⟩

/-- After a write each read plan tells the answer it was read from. -/
theorem WrotePerson.tells
    {answers : List Answer}
    (wrote : WrotePerson person flight stamp now next)
    (reads : ReadsAll person flight)
    {id : PlanId}
    {seen : Seen Nat}
    (found : flight.seen.get? id = some seen)
    (answered : answers[seen.answer]? =
      some { id := id, held := seen.held })
    {source : Option Source}
    (told : ∀ row, person.plans.get? id = some row →
      ∃ earlier, source = some earlier ∧ PersonTells answers id row earlier)
    {row : PersonalPlan}
    (after : next.plans.get? id = some row) :
    ∃ later, personSource person flight id source = some later ∧
      PersonTells answers id row later := by
  rw [wrote.plans, Flight.personalRow, found, Option.bind_some,
    Option.any_some] at after
  unfold personSource
  rw [found]
  dsimp only
  cases held : seen.held with
  | none =>
    have none_ : seen.personal? id = none := by
      rw [Seen.personal?, held]
      rfl
    rw [none_, Option.elim_none] at after
    obtain ⟨before, there, rfl⟩ := Option.map_eq_some_iff.mp after
    obtain ⟨earlier, isSource, tells⟩ := told before there
    rw [there, Option.any_some, isSource, Option.any_none, Bool.not_false,
      Bool.and_true]
    rw [held] at answered
    dsimp only
    split
    · refine ⟨_, rfl, ⟨⟨none, answered, rfl, ?_⟩, tells.period,
        tells.product⟩⟩
      dsimp only [PersonalPlan.sweep]
      split
      · rfl
      · next dead =>
          exact (Bool.not_eq_true _).mp dead
    · exact ⟨earlier, rfl, tells⟩
  | some subscription =>
    cases product : seen.product with
    | none =>
      have none_ : seen.personal? id = none := by
        rw [Seen.personal?, held, product]
        rfl
      rw [none_, Option.elim_none] at after
      obtain ⟨before, there, rfl⟩ := Option.map_eq_some_iff.mp after
      obtain ⟨earlier, isSource, tells⟩ := told before there
      dsimp only
      rw [if_neg]
      · exact ⟨earlier, isSource, tells⟩
      · intro swept
        have open_ := (Bool.and_eq_true_iff.mp swept).1
        obtain ⟨mine, has, readable⟩ :=
          reads id before there (Option.isNone_iff_eq_none.mp open_)
        rw [found] at has
        cases has
        rw [held, product] at readable
        cases readable rfl
    | some quotaBytes =>
      have of_ : seen.personal? id = some
          { id := id
            plan :=
              { productId := subscription.productId
                status := subscription.status
                quotaBytes := quotaBytes
                currentPeriodEnd := subscription.currentPeriodEnd
                endedAt := subscription.endedAt } } := by
        rw [Seen.personal?, held, product]
        rfl
      rw [of_, Option.elim_some, Option.any_some, Option.map_some] at after
      cases after
      rw [held] at answered
      refine ⟨_, rfl, ⟨⟨some subscription, answered, ?_⟩,
        ⟨subscription, answered, ?_⟩, ⟨subscription, answered, ?_⟩⟩⟩
      · refine stands_sweep _ rfl rfl fun swept => ?_
        obtain ⟨open_, ended⟩ := Bool.and_eq_true_iff.mp swept
        dsimp only [PersonalSnapshot.kept] at open_ ended
        rw [open_, Bool.true_and, Bool.not_not] at ended
        exact ⟨Option.isNone_iff_eq_none.mp open_, ended⟩
      · split <;> rfl
      · split <;> rfl

/-- Storage is given to plans only, and to those a snapshot has live. -/
structure Given (person : Person) : Prop where
  plans : ∀ id, person.entitlements.get? id ≠ none →
    person.plans.get? id ≠ none
  entitled : Entitled person

theorem get?_entitle
    (live : List PersonalSnapshot)
    (entitlements : OrderedMap PlanId Entitlement)
    (given : (live.foldl (entitle graceMs) entitlements).get? id ≠ none) :
    entitlements.get? id ≠ none ∨ id ∈ live.map PersonalSnapshot.id := by
  induction live generalizing entitlements with
  | nil =>
    exact .inl given
  | cons first rest inductionHypothesis =>
    rw [map_cons, mem_cons]
    rcases inductionHypothesis _ given with earlier | among
    · rw [entitle, get?_set] at earlier
      split at earlier
      · next same =>
          exact .inr (.inl same)
      · exact .inl earlier
    · exact .inr (.inr among)

theorem get?_writePersonal
    (subscriptions : List PersonalSnapshot)
    (plans : OrderedMap PlanId PersonalPlan)
    (has : plans.get? id ≠ none ∨
      id ∈ subscriptions.map PersonalSnapshot.id) :
    (subscriptions.foldl writePersonal plans).get? id ≠ none := by
  induction subscriptions generalizing plans with
  | nil =>
    rcases has with there | among
    · exact there
    · cases among
  | cons first rest inductionHypothesis =>
    refine inductionHypothesis _ ?_
    rw [map_cons, mem_cons] at has
    rw [writePersonal, get?_set]
    split
    · exact .inl (Option.some_ne_none _)
    · next differs =>
        rcases has with there | same | among
        · exact .inl there
        · exact absurd same differs
        · exact .inr among

/-- Applying an answer keeps the access that is given. -/
theorem given_applyCustomerState
    (given : Given person)
    (graceMs : Nat)
    (customerId : Bool)
    (subscriptions : List PersonalSnapshot)
    (stamp now : Nat) :
    Given (applyCustomerState graceMs person customerId subscriptions stamp
      now).2 := by
  unfold applyCustomerState
  split
  · exact given
  · split
    · exact given
    · dsimp only
      have rows : ∀ id,
          ((subscriptions.filter PersonalSnapshot.live).foldl
              (entitle graceMs) person.entitlements).get? id ≠ none →
            (subscriptions.foldl writePersonal person.plans).get? id ≠
              none := by
        intro id has
        refine get?_writePersonal _ _ ?_
        refine (get?_entitle _ _ has).imp (given.plans id) fun among => ?_
        obtain ⟨snapshot, member, isId⟩ := mem_map.mp among
        exact mem_map.mpr
          ⟨snapshot, (mem_filter.mp member).1, isId⟩
      refine { plans := fun id has => ?_, entitled := fun id row found open_ =>
        ?_ }
      · dsimp only at has ⊢
        rw [get?_update, Ne, Option.map_eq_none_iff] at has ⊢
        exact rows id has
      · dsimp only at found ⊢
        rw [get?_update] at found
        obtain ⟨before, there, isRow⟩ := Option.map_eq_some_iff.mp found
        split at isRow
        · rw [← isRow] at open_
          cases open_
        · next kept =>
            subst isRow
            obtain ⟨plan, has⟩ := Option.ne_none_iff_exists'.mp
              (rows id (by simp [there]))
            have hasPlan : (subscriptions.foldl writePersonal
                person.plans).has id = true :=
              has_iff.mpr (OrderedMap.mem_keys.mpr ⟨plan, has⟩)
            rw [open_, hasPlan] at kept
            have among : id ∈ (subscriptions.filter
                PersonalSnapshot.live).map PersonalSnapshot.id := by
              by_contra absent
              exact kept (by simp [absent])
            obtain ⟨snapshot, member, isId⟩ := mem_map.mp among
            obtain ⟨listed, live⟩ := mem_filter.mp member
            exact ⟨snapshot, listed, isId, live⟩

/-- What holds of a person, their readings and their rows' answers. -/
structure FollowedPerson (world : World Person Nat) : Prop where
  logged : Logged world
  numbered : Numbered world
  fits : All PersonFit world
  billed : PersonBilled world.store
  given : Given world.store
  /-- What a row says the provider answered. -/
  told : ∀ id row, world.store.plans.get? id = some row →
    ∃ source, world.sources id = some source ∧
      PersonTells world.answers id row source
  /-- Every part of a row some reading wrote, and the mark covers. -/
  writers : ∀ id source, world.sources id = some source →
    ∀ answer, source.Has answer → PersonWriter world id answer

theorem followedPerson_start : FollowedPerson (World.start .created) where
  logged := .start _
  numbered := by
    intro number flight found
    cases found
  fits := by
    intro number flight found
    cases found
  billed := by
    intro id row found
    cases found
  given :=
    { plans := fun id has => absurd rfl has
      entitled := fun id row found => by cases found }
  told := by
    intro id row found
    cases found
  writers := by
    intro id source is
    cases is

theorem PersonWriter.stays
    {world next : World Person Nat}
    (stays : Stays world next)
    (covered : ∀ stamp, PersonCovered world.store stamp →
      PersonCovered next.store stamp)
    {id : PlanId}
    {answer : Nat}
    (writer : PersonWriter world id answer) :
    PersonWriter next id answer := by
  obtain ⟨number, flight, stamp, seen, found, written, stamped, has, is,
    covers⟩ := writer
  obtain ⟨after, there, still, _, same, kept⟩ :=
    stays.2 number flight found written
  exact ⟨number, after, stamp, seen, there, still, same.trans stamped,
    kept id seen has, is, covered stamp covers⟩

theorem PersonTells.stays
    {answers later : List Answer}
    (stays : answers <+: later)
    {id : PlanId}
    {row : PersonalPlan}
    {source : Source}
    (tells : PersonTells answers id row source) :
    PersonTells later id row source := by
  have still : ∀ (index : Nat) answer, answers[index]? = some answer →
      later[index]? = some answer := by
    obtain ⟨rest, rfl⟩ := stays
    intro index answer there
    have within := (List.getElem?_eq_some_iff.mp there).1
    exact (getElem?_append_left within).trans there
  obtain ⟨held, standing, stands⟩ := tells.standing
  obtain ⟨first, period, runs⟩ := tells.period
  obtain ⟨second, product, is⟩ := tells.product
  exact
    { standing := ⟨held, still _ _ standing, stands⟩
      period := ⟨first, still _ _ period, runs⟩
      product := ⟨second, still _ _ product, is⟩ }

/-- The source of a plan is the answer read or the one it had. -/
theorem personSource_cases
    (person : Person)
    {flight : Flight Nat}
    (found : flight.seen.get? id = some seen)
    (source : Option Source)
    {later : Source}
    (is : personSource person flight id source = some later) :
    ∀ answer, later.Has answer → answer = seen.answer ∨
      ∃ earlier, source = some earlier ∧ earlier.Has answer := by
  intro answer has
  unfold personSource at is
  rw [found] at is
  dsimp only at is
  split at is
  · cases is
    rcases has with same | same | same <;> exact .inl same
  · exact .inr ⟨later, is, has⟩
  · split at is
    · obtain ⟨earlier, isSource, rfl⟩ := Option.map_eq_some_iff.mp is
      rcases has with same | same | same
      · exact .inl same
      · exact .inr ⟨earlier, isSource, .inr (.inl same)⟩
      · exact .inr ⟨earlier, isSource, .inr (.inr same)⟩
    · exact .inr ⟨later, is, has⟩

/-- The source of a plan only moves to later answers. -/
theorem personSource_le
    (person : Person)
    {flight : Flight Nat}
    (found : flight.seen.get? id = some seen)
    {source : Source}
    (below : ∀ answer, source.Has answer → answer ≤ seen.answer) :
    ∃ later, personSource person flight id (some source) = some later ∧
      source.Le later := by
  unfold personSource
  rw [found]
  dsimp only
  have standing := below source.standing (.inl rfl)
  have period := below source.period (.inr (.inl rfl))
  have product := below source.product (.inr (.inr rfl))
  have same : source.Le source :=
    ⟨Nat.le_refl _, Nat.le_refl _, Nat.le_refl _⟩
  split
  · exact ⟨_, rfl, standing, period, product⟩
  · exact ⟨source, rfl, same⟩
  · split
    · exact ⟨_, rfl, standing, Nat.le_refl _, Nat.le_refl _⟩
    · exact ⟨source, rfl, same⟩

/-- What a write in turn does to a person's rows and their answers. -/
structure AdvancedPerson (world next : World Person Nat) : Prop where
  followed : FollowedPerson next
  /-- No part of a row goes back to an earlier answer. -/
  forward : ∀ id source, world.sources id = some source →
    ∃ later, next.sources id = some later ∧ source.Le later

/-- A move that leaves store and sources leaves the person followed. -/
theorem FollowedPerson.quiet
    {world next : World Person Nat}
    (followed : FollowedPerson world)
    (move : Move Nat Time Unit)
    (isNext : next = (people graceMs).step world move)
    (store : next.store = world.store)
    (sources : next.sources = world.sources) :
    AdvancedPerson world next := by
  subst isNext
  have stays := stays_step (people graceMs) followed.numbered move
  refine { followed := ?_, forward := fun id source is => ?_ }
  · refine
      { logged := followed.logged.step move
        numbered := followed.numbered.step move
        fits := (people_fitting graceMs).step followed.billed followed.fits
          move
        billed := store ▸ followed.billed
        given := store ▸ followed.given
        told := fun id row found => ?_
        writers := fun id source is answer has => ?_ }
    · rw [store] at found
      rw [sources]
      obtain ⟨source, is, tells⟩ := followed.told id row found
      exact ⟨source, is, tells.stays stays.1⟩
    · rw [sources] at is
      refine (followed.writers id source is answer has).stays stays ?_
      rw [store]
      exact fun _ covers => covers
  · rw [sources]
    exact ⟨source, is, Nat.le_refl _, Nat.le_refl _, Nat.le_refl _⟩

/-- A write in its turn leaves the person followed and moved forward. -/
theorem FollowedPerson.applied
    {world next : World Person Nat}
    (followed : FollowedPerson world)
    {number : Nat}
    {flight : Flight Nat}
    {stamp now : Nat}
    (found : world.flights.get? number = some flight)
    (stamped : flight.stamp = some stamp)
    (fit : PersonFit world.store flight)
    (wrote : WrotePerson world.store flight stamp now next.store)
    (given : Given next.store)
    (turn : InTurn world flight stamp)
    (reads : ReadsAll world.store flight)
    (move : Move Nat Time Unit)
    (isNext : next = (people graceMs).step world move)
    (sources : next.sources = fun id =>
      personSource world.store flight id (world.sources id))
    (flights : next.flights =
      world.flights.set number { flight with written := true }) :
    AdvancedPerson world next := by
  have stays : Stays world next := by
    rw [isNext]
    exact stays_step (people graceMs) followed.numbered move
  have covered : ∀ stamp, PersonCovered world.store stamp →
      PersonCovered next.store stamp :=
    fun stamp covers => wrote.covered covers
  have own : ∀ id seen, flight.seen.get? id = some seen →
      PersonWriter next id seen.answer := by
    intro id seen has
    refine ⟨number, { flight with written := true }, stamp, seen, ?_, rfl,
      stamped, has, rfl, wrote.covers fit has⟩
    rw [flights, get?_set, if_pos rfl]
  have unread : ∀ id, flight.seen.get? id = none →
      next.sources id = world.sources id := by
    intro id absent
    rw [sources]
    dsimp only [personSource]
    rw [absent]
  have below : ∀ id source seen, world.sources id = some source →
      flight.seen.get? id = some seen →
        ∀ answer, source.Has answer → answer ≤ seen.answer := by
    intro id source seen is has answer part
    obtain ⟨other, earlier, at_, mine, there, written, numbered, had, rfl,
      covers⟩ := followed.writers id source is answer part
    exact followed.logged.le_of_inTurn found stamped turn there written
      numbered (wrote.le covers) had has
  refine { followed := ?_, forward := fun id source is => ?_ }
  · refine
      { logged := isNext ▸ followed.logged.step move
        numbered := isNext ▸ followed.numbered.step move
        fits := isNext ▸ (people_fitting graceMs).step followed.billed
          followed.fits move
        billed := fun id row there => ?_
        given := given
        told := fun id row there => ?_
        writers := fun id later is answer part => ?_ }
    · cases has : flight.seen.get? id with
      | none =>
        rw [wrote.untouched reads has] at there
        have isSome := followed.billed id row there
        rw [wrote.customer]
        split
        · rfl
        · rw [Option.isSome_map]
          exact isSome
      | some seen =>
        obtain ⟨mark, isMark, _⟩ := wrote.covers fit has
        rw [isMark]
        rfl
    · cases has : flight.seen.get? id with
      | none =>
        rw [wrote.untouched reads has] at there
        rw [unread id has]
        obtain ⟨source, is, tells⟩ := followed.told id row there
        exact ⟨source, is, tells.stays stays.1⟩
      | some seen =>
        obtain ⟨later, is, tells⟩ := wrote.tells reads has
          (followed.logged.answered number flight id seen found has)
          (followed.told id) there
        refine ⟨later, ?_, tells.stays stays.1⟩
        rw [sources]
        exact is
    · cases has : flight.seen.get? id with
      | none =>
        rw [unread id has] at is
        exact (followed.writers id later is answer part).stays stays covered
      | some seen =>
        rw [sources] at is
        rcases personSource_cases world.store has _ is answer part with
          rfl | ⟨earlier, wasSource, had⟩
        · exact own id seen has
        · exact (followed.writers id earlier wasSource answer had).stays
            stays covered
  · cases has : flight.seen.get? id with
    | none =>
      rw [unread id has]
      exact ⟨source, is, Nat.le_refl _, Nat.le_refl _, Nat.le_refl _⟩
    | some seen =>
      rw [sources]
      dsimp only
      rw [is]
      exact personSource_le world.store has (below id source seen is has)

theorem WrotePerson.current
    (wrote : WrotePerson person flight stamp now next) :
    (people graceMs).current person flight stamp = true := by
  dsimp only [people]
  rw [wrote.personal, Bool.true_and]
  cases there : person.customer with
  | none =>
    rfl
  | some mark =>
    rw [Option.any_some, wrote.reconciled mark there]
    rfl

/-- Every move in its turn only takes the person forward. -/
theorem FollowedPerson.step
    {world : World Person Nat}
    (followed : FollowedPerson world)
    (move : Move Nat Time Unit)
    (turn : (people graceMs).InTurn world move) :
    AdvancedPerson world ((people graceMs).step world move) := by
  have changed := (people graceMs).change_step world move
  generalize isNext : (people graceMs).step world move = after at changed
  cases changed with
  | quiet store sources =>
    exact followed.quiet move isNext.symm store sources
  | other store sources =>
    next write =>
    exact followed.quiet (.other write) isNext.symm store sources
  | refused found stamped ready outcome store sources =>
    next number now flight stamp =>
    rcases personWrite_spec graceMs world.store flight stamp
        now with ⟨_, same⟩ | ⟨applied, _⟩
    · exact followed.quiet (.write number now) isNext.symm
        (store.trans same) sources
    · exact absurd applied outcome
  | applied found stamped ready outcome store sources flights =>
    next number now flight stamp =>
    rcases personWrite_spec graceMs world.store flight stamp
        now with ⟨refused, _⟩ | ⟨_, wrote⟩
    · exact absurd outcome refused
    · have isStore : after.store = (applyCustomerState graceMs world.store
          flight.known flight.personal stamp now).2 := store
      have given : Given after.store := by
        rw [isStore]
        exact given_applyCustomerState followed.given graceMs flight.known
          flight.personal stamp now
      rw [← store] at wrote
      obtain ⟨inTurn, reads⟩ :=
        turn flight stamp found stamped ready wrote.current
      exact followed.applied found stamped
        (followed.fits number flight found) wrote given inTurn reads
        (.write number now) isNext.symm sources flights

end Person

end Billing

end HushOS
