import HushOS.Billing.Mirrored

namespace HushOS

open Toolkit List OrderedMap

namespace Billing

/-!
# The provider's answers, in order

Where a write finds every reading numbered before it answered before it, no row
goes back to an earlier answer than it held.
-/

/-- What an answer leaves of a plan's status and end: a plan gone has ended. -/
def Stands : Option Subscription → Status × Option Time → Prop
  | none, standing => standing.2.isSome = true ∧ standing.1.live = false
  | some subscription, standing =>
    standing.1 = subscription.status ∧
      (standing.2 = subscription.endedAt ∨
        -- Ended without saying when: ended when it was written.
        subscription.endedAt = none ∧ subscription.status.ended = true ∧
          standing.2.isSome = true)

/-- What a row says of its plan, the provider answered. -/
structure Tells
    (answers : List Answer)
    (id : PlanId)
    (facts : Facts)
    (source : Source) : Prop where
  standing : ∃ held, answers[source.standing]? =
      some { id := id, held := held } ∧
    Stands held facts.standing
  period : ∃ subscription, answers[source.period]? =
      some { id := id, held := some subscription } ∧
    facts.period =
      (subscription.currentPeriodStart, subscription.currentPeriodEnd)
  product : ∃ subscription, answers[source.product]? =
      some { id := id, held := some subscription } ∧
    facts.product.1 = subscription.productId ∧
    ∀ units, subscription.units = some units → facts.product.2 = units

/-- Whether a part of a row was written from an answer. -/
def Source.Has (source : Source) (answer : Nat) : Prop :=
  answer = source.standing ∨ answer = source.period ∨ answer = source.product

/-- Whether no part of a row was written from an earlier answer. -/
def Source.Le (source later : Source) : Prop :=
  source.standing ≤ later.standing ∧ source.period ≤ later.period ∧
    source.product ≤ later.product

/-- A reading's number is in a family's marks, where it writes a plan. -/
def Covered
    (family : Family)
    (id : PlanId)
    (plan : Option PlanId)
    (stamp : ReadingStamp) : Prop :=
  ∃ customer, family.customer = some customer ∧
    match plan with
    | none => ∃ mark, customer.reconciledFrom = some mark ∧ stamp ≤ mark
    | some _ =>
      (∃ mark, customer.changedFrom = some mark ∧ stamp ≤ mark) ∧
        ∃ facts, factsAt family.plans id = some facts ∧
          ∃ mark, facts.changedFrom = some mark ∧ stamp ≤ mark

/-- The reading that wrote a part of a row. -/
def Writer
    (world : World Family Priced)
    (id : PlanId)
    (answer : Nat) : Prop :=
  ∃ number flight stamp seen,
    world.flights.get? number = some flight ∧
      flight.written = true ∧
        flight.stamp = some stamp ∧
          flight.seen.get? id = some seen ∧
            seen.answer = answer ∧
              Covered world.store id flight.plan stamp

section Marked

variable
  {family next : Family}
  {flight : Flight Priced}
  {stamp now : Nat}

theorem le_latest (held : Option ReadingStamp) (stamp : ReadingStamp) :
    stamp ≤ latest held stamp ∧
      ∀ earlier, held = some earlier → earlier ≤ latest held stamp := by
  cases held with
  | none =>
    exact ⟨Nat.le_refl _, fun _ is => by cases is⟩
  | some mark =>
    refine ⟨Nat.le_max_right _ _, fun earlier is => ?_⟩
    cases is
    exact Nat.le_max_left _ _

theorem changedFrom_finish
    (id : PlanId)
    (facts : Facts)
    {mark : ReadingStamp}
    (marked : facts.changedFrom = some mark) :
    ∃ later, (flight.finish stamp now id facts).changedFrom = some later ∧
      mark ≤ later := by
  unfold Flight.finish
  split
  · split
    · exact ⟨mark, marked, Nat.le_refl _⟩
    · exact ⟨mark, marked, Nat.le_refl _⟩
  · split
    · exact ⟨_, rfl, (le_latest facts.changedFrom stamp).2 mark marked⟩
    · exact ⟨mark, marked, Nat.le_refl _⟩

theorem changedFrom_leave
    (flight : Flight Priced)
    (id : PlanId)
    (facts : Facts) :
    ∃ later, flight.leave id (some facts) = some later ∧
      later.changedFrom = facts.changedFrom := by
  unfold Flight.leave
  cases flight.seen.get? id with
  | none =>
    exact ⟨facts, rfl, rfl⟩
  | some seen =>
    obtain ⟨_, held, product⟩ := seen
    cases held <;> cases product <;> exact ⟨_, rfl, rfl⟩

variable {id : PlanId}

theorem Wrote.row
    (wrote : Wrote family flight stamp now next)
    {facts : Facts}
    (found : factsAt family.plans id = some facts) :
    ∃ later, factsAt next.plans id = some later ∧
      ∀ mark, facts.changedFrom = some mark →
        ∃ mine, later.changedFrom = some mine ∧ mark ≤ mine := by
  obtain ⟨left, is, same⟩ := changedFrom_leave flight id facts
  refine ⟨flight.finish stamp now id left, ?_, fun mark marked => ?_⟩
  · rw [wrote.facts, found, is, Option.map_some]
  · exact changedFrom_finish id left (same.trans marked)

/-- A plan covered by a stamp stays covered after a write. -/
theorem Wrote.covered
    (wrote : Wrote family flight stamp now next)
    {plan : Option PlanId}
    {earlier : ReadingStamp}
    (covered : Covered family id plan earlier) :
    Covered next id plan earlier := by
  obtain ⟨customer, there, marks⟩ := covered
  have noted := wrote.customer
  rw [there, Customer.after] at noted
  refine ⟨_, noted, ?_⟩
  have notLater := newer_eq_false.mp (wrote.reconciled customer there)
  unfold Customer.note
  cases plan with
  | none =>
    obtain ⟨mark, isMark, below⟩ := marks
    dsimp only
    split
    · exact ⟨stamp, rfl, below.trans (notLater mark isMark)⟩
    · exact ⟨mark, isMark, below⟩
  | some plan =>
    obtain ⟨⟨mark, isMark, below⟩, facts, found, own, isOwn, ownBelow⟩ :=
      marks
    dsimp only
    obtain ⟨later, stands, kept⟩ := wrote.row found
    obtain ⟨mine, isMine, notBelow⟩ := kept own isOwn
    refine ⟨?_, later, stands, mine, isMine, ownBelow.trans notBelow⟩
    split
    · exact ⟨mark, isMark, below⟩
    · exact ⟨_, rfl,
        below.trans ((le_latest customer.changedFrom stamp).2 mark isMark)⟩

/-- A write covers each plan it read with its own stamp. -/
theorem Wrote.covers
    (wrote : Wrote family flight stamp now next)
    (fit : Fit family flight)
    (ready : flight.ready = true)
    {seen : Seen Priced}
    (found : flight.seen.get? id = some seen) :
    Covered next id flight.plan stamp := by
  have noted := wrote.customer
  cases plan : flight.plan with
  | none =>
    have listed := fit.asked plan id seen found
    rw [plan, Option.isNone_none] at noted
    cases there : family.customer with
    | none =>
      rcases fit.reconcile plan listed with known | isSome
      · rw [there, known, Customer.after, if_pos rfl, if_pos rfl] at noted
        exact ⟨_, noted, stamp, rfl, Nat.le_refl _⟩
      · rw [there] at isSome
        cases isSome
    | some customer =>
      rw [there, Customer.after] at noted
      exact ⟨_, noted, stamp, rfl, Nat.le_refl _⟩
  | some own =>
    obtain ⟨isSome, _, _, only⟩ := fit.change own plan
    have isOwn := only id seen found
    subst isOwn
    obtain ⟨customer, there⟩ := Option.isSome_iff_exists.mp isSome
    rw [there, Customer.after, plan] at noted
    refine ⟨_, noted, ⟨_, rfl, (le_latest _ stamp).1⟩, ?_⟩
    rw [Flight.ready, plan] at ready
    dsimp only at ready
    rw [found, Option.any_some] at ready
    obtain ⟨subscription, held⟩ := Option.isSome_iff_exists.mp ready
    have left : ∃ facts,
        flight.leave id (factsAt family.plans id) = some facts := by
      rw [Flight.leave, found, Option.elim_some, Seen.leave, held]
      cases seen.product <;> exact ⟨_, rfl⟩
    obtain ⟨facts, is⟩ := left
    refine ⟨facts.change stamp, ?_, _, rfl, (le_latest _ stamp).1⟩
    rw [wrote.facts, is, Option.map_some, Flight.finish, plan]
    dsimp only
    rw [if_pos rfl]

/-- A write over a covered plan has no earlier stamp. -/
theorem Wrote.le
    (wrote : Wrote family flight stamp now next)
    {plan : Option PlanId}
    {earlier : ReadingStamp}
    (covered : Covered family id plan earlier)
    (own : ∀ change, flight.plan = some change → id = change) :
    earlier ≤ stamp := by
  obtain ⟨customer, there, marks⟩ := covered
  cases plan with
  | none =>
    obtain ⟨mark, isMark, below⟩ := marks
    exact below.trans
      (newer_eq_false.mp (wrote.reconciled customer there) mark isMark)
  | some plan =>
    obtain ⟨⟨mark, isMark, below⟩, facts, found, mine, isMine, notAbove⟩ :=
      marks
    cases is : flight.plan with
    | none =>
      exact below.trans
        (newer_eq_false.mp (wrote.changed is customer there) mark isMark)
    | some change =>
      have isOwn := own change is
      subst isOwn
      obtain ⟨row, there, rfl⟩ := Option.map_eq_some_iff.mp found
      exact notAbove.trans
        (newer_eq_false.mp (wrote.own id is row there) mine isMine)

end Marked

section Told

variable
  {family next : Family}
  {flight : Flight Priced}
  {stamp now : Nat}
  {answers : List Answer}

variable {id : PlanId}

/-- The facts of an unread plan stay through a write. -/
theorem Wrote.untouched
    (wrote : Wrote family flight stamp now next)
    (ready : flight.ready = true)
    (unread : flight.seen.get? id = none) :
    factsAt next.plans id = factsAt family.plans id := by
  rw [wrote.facts, Flight.leave, unread, Option.elim_none]
  cases factsAt family.plans id with
  | none =>
    rfl
  | some facts =>
    rw [Option.map_some, Flight.finish]
    cases plan : flight.plan with
    | none =>
      dsimp only
      rw [if_neg]
      intro sweeps
      unfold Flight.sweeps at sweeps
      rw [Bool.and_eq_true, Bool.and_eq_true] at sweeps
      have listed := sweeps.1.2
      rw [Flight.ready, plan, Bool.and_eq_true] at ready
      cases mirrored : flight.mirrored with
      | none =>
        rw [mirrored] at listed
        cases listed
      | some ids =>
        rw [mirrored, Option.any_some] at listed ready
        have has := all_eq_true.mp ready.2 id
          (of_decide_eq_true listed)
        obtain ⟨seen, found⟩ :=
          OrderedMap.mem_keys.mp (has_iff.mp has)
        rw [unread] at found
        cases found
    | some plan =>
      dsimp only
      rw [if_neg]
      intro same
      subst same
      rw [Flight.ready] at ready
      simp only [*] at ready
      cases ready

theorem sweeps_eq
    {seen : Seen Priced}
    (found : flight.seen.get? id = some seen)
    (facts : Facts) :
    flight.sweeps id facts =
      (facts.standing.2.isNone && flight.mirrored.any (id ∈ ·) &&
        !seen.held.any fun subscription =>
          subscription.endedAt.isNone && !subscription.status.ended) := by
  rw [Flight.sweeps, found, Option.any_some]

/-- After a write each read plan tells the answer it was read from. -/
theorem Wrote.tells
    (wrote : Wrote family flight stamp now next)
    (fit : Fit family flight)
    {seen : Seen Priced}
    (found : flight.seen.get? id = some seen)
    (answered : answers[seen.answer]? =
      some { id := id, held := seen.held })
    {source : Option Source}
    (told : ∀ facts, factsAt family.plans id = some facts →
      ∃ earlier, source = some earlier ∧ Tells answers id facts earlier)
    {facts : Facts}
    (after : factsAt next.plans id = some facts) :
    ∃ later, familySource family flight id source = some later ∧
      Tells answers id facts later := by
  rw [wrote.facts, Flight.leave, found, Option.elim_some] at after
  obtain ⟨left, is, rfl⟩ := Option.map_eq_some_iff.mp after
  have period : (flight.finish stamp now id left).period = left.period := by
    unfold Flight.finish
    split <;> split <;> rfl
  have product : (flight.finish stamp now id left).product =
      left.product := by
    unfold Flight.finish
    split <;> split <;> rfl
  unfold familySource
  rw [found]
  dsimp only
  cases held : seen.held with
  | none =>
    rw [held] at answered
    rw [Seen.leave, held] at is
    obtain ⟨earlier, isSource, tells⟩ := told left is
    dsimp only
    obtain ⟨row, there, isLeft⟩ := Option.map_eq_some_iff.mp is
    have same : ((family.plans.get? id).any fun row =>
        row.endedAt.isNone) = left.standing.2.isNone := by
      rw [there, ← isLeft]
      rfl
    rw [same, isSource]
    split
    · next swept =>
        rw [Bool.and_comm] at swept
        refine ⟨_, rfl, ⟨⟨none, answered, ?_⟩, ?_, ?_⟩⟩
        · unfold Flight.finish
          split
          · rw [if_pos (by rw [sweeps_eq found, held, swept]; rfl)]
            refine ⟨rfl, ?_⟩
            dsimp only [Facts.sweep]
            split
            · rfl
            · next dead =>
                exact (Bool.not_eq_true _).mp dead
          · next plan isPlan =>
              rw [(fit.change plan isPlan).2.2.1] at swept
              cases (Bool.and_eq_true_iff.mp swept).2
        · rw [period]
          exact tells.period
        · rw [product]
          exact tells.product
    · next unswept =>
        refine ⟨earlier, rfl, ⟨?_, ?_, ?_⟩⟩
        · have stands : (flight.finish stamp now id left).standing =
              left.standing := by
            unfold Flight.finish
            split
            · rw [if_neg]
              intro sweeps
              rw [sweeps_eq found, held, Option.any_none, Bool.not_false,
                Bool.and_true, Bool.and_comm] at sweeps
              exact unswept sweeps
            · split <;> rfl
          rw [stands]
          exact tells.standing
        · rw [period]
          exact tells.period
        · rw [product]
          exact tells.product
  | some subscription =>
    rw [held] at answered
    dsimp only
    refine ⟨_, rfl, ⟨⟨some subscription, answered, ?_⟩,
      ⟨subscription, answered, ?_⟩, ?_⟩⟩
    · have stands : left.standing =
          (subscription.status, subscription.endedAt) := by
        rw [Seen.leave, held] at is
        cases plan : seen.product <;> rw [plan] at is <;> cases is <;> rfl
      unfold Flight.finish
      split
      · split
        · next sweeps =>
            rw [sweeps_eq found, held, Option.any_some, stands,
              Bool.and_eq_true, Bool.and_eq_true] at sweeps
            obtain ⟨⟨open_, _⟩, ended⟩ := sweeps
            dsimp only at open_
            rw [open_, Bool.true_and, Bool.not_not] at ended
            have dead : subscription.status.live = false := by
              cases standing : subscription.status <;>
                rw [standing] at ended <;> first | rfl | cases ended
            dsimp only [Facts.sweep]
            rw [stands]
            dsimp only
            rw [if_neg (by rw [dead]; exact Bool.false_ne_true)]
            exact ⟨rfl, .inr ⟨Option.isNone_iff_eq_none.mp open_, ended,
              rfl⟩⟩
        · rw [stands]
          exact ⟨rfl, .inl rfl⟩
      · have same : ∀ change : Prop, [Decidable change] →
            (if change then left.change stamp else left).standing =
              left.standing := by
          intro change _
          split <;> rfl
        rw [same, stands]
        exact ⟨rfl, .inl rfl⟩
    · rw [period]
      rw [Seen.leave, held] at is
      cases plan : seen.product <;> rw [plan] at is <;> cases is <;> rfl
    · rw [product]
      rw [Seen.leave, held] at is
      cases plan : seen.product with
      | some priced =>
        rw [plan] at is
        cases is
        dsimp only
        rw [Option.isSome_some, Bool.true_or, if_pos rfl]
        refine ⟨subscription, answered, rfl, fun units has => ?_⟩
        dsimp only [Snapshot.leave, snapshotOf]
        rw [has, Option.getD_some]
      | none =>
        rw [plan] at is
        cases is
        dsimp only
        rw [Option.isSome_none, Bool.false_or]
        have own : ∃ subscription_, answers[seen.answer]? =
            some { id := id, held := some subscription_ } ∧
          subscription.productId = subscription_.productId ∧
          ∀ units, subscription_.units = some units →
            subscription.units.getD 1 = units :=
          ⟨subscription, answered, rfl, fun units has => by
            rw [has, Option.getD_some]⟩
        cases there : family.plans.get? id with
        | none =>
          rw [Option.all_none, if_pos rfl, factsAt, there]
          exact own
        | some row =>
          rw [Option.all_some, factsAt, there]
          cases unread : row.productUnread with
          | true =>
            rw [if_pos rfl]
            dsimp only [Unread.leave, Option.map_some, Plan.facts]
            rw [unread, if_pos rfl]
            exact own
          | false =>
            rw [if_neg Bool.false_ne_true]
            obtain ⟨earlier, isSource, tells⟩ :=
              told row.facts (factsAt_of_found there)
            rw [isSource]
            dsimp only [Unread.leave, Option.map_some, Plan.facts]
            rw [unread, if_neg Bool.false_ne_true]
            exact tells.product

end Told

section Followed

variable {grace : Nat}

variable {flight : Flight Priced} {id : PlanId} {world next : World Family Priced}

theorem Fit.mono
    {family next : Family}
    (fit : Fit family flight)
    (stays : family.customer.isSome = true → next.customer.isSome = true) :
    Fit next flight where
  change := by
    intro plan is
    obtain ⟨isSome, rest⟩ := fit.change plan is
    exact ⟨stays isSome, rest⟩
  reconcile := fun whole listed => (fit.reconcile whole listed).imp_right stays
  asked := fit.asked

theorem isSome_after
    {known whole : Bool}
    {stamp : ReadingStamp}
    {customer : Option Customer}
    (isSome : customer.isSome = true) :
    (Customer.after known whole stamp customer).isSome = true := by
  cases customer with
  | none =>
    cases isSome
  | some row =>
    rfl

theorem isSome_familyWrite
    {family : Family}
    (flight : Flight Priced)
    (stamp : ReadingStamp)
    (extra : Extra)
    (isSome : family.customer.isSome = true) :
    (familyWrite grace family flight stamp extra).2.customer.isSome =
      true := by
  unfold familyWrite
  split
  · next unread _ =>
      rcases recordUnread_spec family unread stamp extra.order extra.now with
        ⟨_, same⟩ | ⟨_, _, customer, _⟩
      · rw [same]
        exact isSome
      · rw [customer]
        exact isSome_after isSome
  · rcases applyGroupState_spec grace family (flight.reading stamp extra) with
      ⟨_, same⟩ | ⟨_, _, customer, _⟩
    · rw [same]
      exact isSome
    · rw [customer]
      exact isSome_after isSome

/-- What runs beside the readings touches no plan's facts. -/
theorem beside_spec (grace : Nat) (family : Family) (op : Op) :
    (beside grace family op).plans = family.plans ∧
      ∀ customer, family.customer = some customer →
        (beside grace family op).customer = some customer := by
  cases op with
  | apply reading =>
    exact ⟨rfl, fun _ there => there⟩
  | recordUnread unread readingFrom order now =>
    exact ⟨rfl, fun _ there => there⟩
  | ensureCustomer =>
    dsimp only [beside, step]
    split
    · next absent =>
        refine ⟨rfl, fun customer there => ?_⟩
        rw [there] at absent
        cases absent
    · exact ⟨rfl, fun _ there => there⟩
  | endLapsed id =>
    exact ⟨rfl, fun _ there => there⟩
  | endSuperseded id =>
    dsimp only [beside, step]
    split
    · exact ⟨rfl, fun _ there => there⟩
    · split <;> exact ⟨rfl, fun _ there => there⟩
  | endOrphaned id paidAfter =>
    dsimp only [beside, step]
    split <;> exact ⟨rfl, fun _ there => there⟩
  | purge =>
    exact ⟨rfl, fun _ there => there⟩

/-- Whether a family with plans has a customer. -/
def Billed (family : Family) : Prop :=
  ∀ id facts, factsAt family.plans id = some facts →
    family.customer.isSome = true

/-- The flights of a family fit the bills they were started for. -/
theorem families_fitting (grace : Nat) : (families grace).Fitting Billed Fit where
  reconcile := fun family stamp known =>
    { change := fun plan is => by cases is
      reconcile := fun _ listed => by cases listed
      asked := fun _ id seen found => by cases found }
  list := fun family flight _ whole fit lists =>
    { change := fun plan is => by
        have isWhole : flight.plan = some plan := is
        rw [whole] at isWhole
        cases isWhole
      reconcile := fun _ _ => Bool.or_eq_true_iff.mp lists
      asked := fun _ _ _ _ => rfl }
  change := fun family id billed changes =>
    { change := fun plan is => by
        refine ⟨?_, rfl, rfl, fun other seen found => by cases found⟩
        rcases Bool.or_eq_true_iff.mp changes with isSome | has
        · exact isSome
        · obtain ⟨row, found⟩ :=
            OrderedMap.mem_keys.mp (has_iff.mp has)
          exact billed id row.facts (factsAt_of_found found)
      reconcile := fun whole => by cases whole
      asked := fun whole => by cases whole }
  ask := fun family flight id seen fit asks =>
    { change := fun plan is => by
        obtain ⟨isSome, known, mirrored, only⟩ := fit.change plan is
        refine ⟨isSome, known, mirrored, fun other mine found => ?_⟩
        dsimp only at found
        rw [get?_set] at found
        split at found
        · next same =>
            have isPlan : flight.plan = some plan := is
            dsimp only [families] at asks
            rw [isPlan] at asks
            exact same.trans (of_decide_eq_true asks)
        · exact only other mine found
      reconcile := fit.reconcile
      asked := fun whole _ _ _ => by
        have isWhole : flight.plan = none := whole
        dsimp only [families] at asks
        rw [isWhole] at asks
        exact asks }
  draw := fun family flight stamp fit =>
    { change := fit.change
      reconcile := fit.reconcile
      asked := fit.asked }
  written := fun family flight fit =>
    { change := fit.change
      reconcile := fit.reconcile
      asked := fit.asked }
  write := fun family flight other stamp extra fit =>
    fit.mono (isSome_familyWrite other stamp extra)
  other := fun family flight op fit => fit.mono fun isSome => by
    obtain ⟨customer, there⟩ := Option.isSome_iff_exists.mp isSome
    have still := (beside_spec grace family op).2 customer there
    exact Option.isSome_iff_exists.mpr ⟨customer, still⟩

/-- What holds of a family, its readings and its rows' answers. -/
structure Followed (world : World Family Priced) : Prop where
  logged : Logged world
  numbered : Numbered world
  fits : All Fit world
  billed : Billed world.store
  /-- What a row says the provider answered. -/
  told : ∀ id facts, factsAt world.store.plans id = some facts →
    ∃ source, world.sources id = some source ∧
      Tells world.answers id facts source
  /-- Every part of a row some reading wrote, and the marks cover. -/
  writers : ∀ id source, world.sources id = some source →
    ∀ answer, source.Has answer → Writer world id answer

theorem followed_start (pooled : Bool) :
    Followed (World.start (.created pooled)) where
  logged := .start _
  numbered := by
    intro number flight found
    cases found
  fits := by
    intro number flight found
    cases found
  billed := by
    intro id facts found
    cases found
  told := by
    intro id facts found
    cases found
  writers := by
    intro id source is
    cases is

theorem Writer.stays
    (stays : Stays world next)
    (covered : ∀ id plan stamp, Covered world.store id plan stamp →
      Covered next.store id plan stamp)
    {answer : Nat}
    (writer : Writer world id answer) :
    Writer next id answer := by
  obtain ⟨number, flight, stamp, seen, found, written, stamped, has, is,
    covers⟩ := writer
  obtain ⟨after, there, still, plan, same, kept⟩ :=
    stays.2 number flight found written
  refine ⟨number, after, stamp, seen, there, still, same.trans stamped,
    kept id seen has, is, ?_⟩
  rw [plan]
  exact covered id flight.plan stamp covers

theorem Tells.stays
    {answers later : List Answer}
    (stays : answers <+: later)
    {facts : Facts}
    {source : Source}
    (tells : Tells answers id facts source) :
    Tells later id facts source := by
  have still : ∀ (index : Nat) answer, answers[index]? = some answer →
      later[index]? = some answer := by
    obtain ⟨rest, rfl⟩ := stays
    intro index answer there
    have within := (List.getElem?_eq_some_iff.mp there).1
    exact (getElem?_append_left within).trans there
  obtain ⟨held, standing, stands⟩ := tells.standing
  obtain ⟨first, period, runs⟩ := tells.period
  obtain ⟨second, product, is⟩ := tells.product
  exact
    { standing := ⟨held, still _ _ standing, stands⟩
      period := ⟨first, still _ _ period, runs⟩
      product := ⟨second, still _ _ product, is⟩ }

/-- The source of a plan is the answer read or the one it had. -/
theorem familySource_cases
    (family : Family)
    {seen : Seen Priced}
    (found : flight.seen.get? id = some seen)
    (source : Option Source)
    {later : Source}
    (is : familySource family flight id source = some later) :
    ∀ answer, later.Has answer → answer = seen.answer ∨
      ∃ earlier, source = some earlier ∧ earlier.Has answer := by
  intro answer has
  unfold familySource at is
  rw [found] at is
  dsimp only at is
  split at is
  · next subscription held =>
      cases is
      rcases has with same | same | same
      · exact .inl same
      · exact .inl same
      · dsimp only at same
        split at same
        · exact .inl same
        · cases source with
          | none =>
            exact .inl same
          | some earlier =>
            exact .inr ⟨earlier, rfl, .inr (.inr same)⟩
  · split at is
    · obtain ⟨earlier, isSource, rfl⟩ := Option.map_eq_some_iff.mp is
      rcases has with same | same | same
      · exact .inl same
      · exact .inr ⟨earlier, isSource, .inr (.inl same)⟩
      · exact .inr ⟨earlier, isSource, .inr (.inr same)⟩
    · exact .inr ⟨later, is, has⟩

/-- The source of a plan only moves to later answers. -/
theorem familySource_le
    (family : Family)
    {seen : Seen Priced}
    (found : flight.seen.get? id = some seen)
    {source : Source}
    (below : ∀ answer, source.Has answer → answer ≤ seen.answer) :
    ∃ later, familySource family flight id (some source) = some later ∧
      source.Le later := by
  unfold familySource
  rw [found]
  dsimp only
  have standing := below source.standing (.inl rfl)
  have period := below source.period (.inr (.inl rfl))
  have product := below source.product (.inr (.inr rfl))
  split
  · refine ⟨_, rfl, standing, period, ?_⟩
    dsimp only
    split
    · exact product
    · exact Nat.le_refl _
  · split
    · exact ⟨_, rfl, standing, Nat.le_refl _, Nat.le_refl _⟩
    · exact ⟨_, rfl, Nat.le_refl _, Nat.le_refl _, Nat.le_refl _⟩

/-- What a write in turn does to a family's rows and their answers. -/
structure Advanced (world next : World Family Priced) : Prop where
  followed : Followed next
  /-- No part of a row goes back to an earlier answer. -/
  forward : ∀ id source, world.sources id = some source →
    ∃ later, next.sources id = some later ∧ source.Le later

/-- A move that leaves plans and sources leaves the family followed. -/
theorem Followed.quiet
    (followed : Followed world)
    (move : Move Priced Extra Op)
    (isNext : next = (families grace).step world move)
    (plans : next.store.plans = world.store.plans)
    (customer : ∀ row, world.store.customer = some row →
      next.store.customer = some row)
    (sources : next.sources = world.sources) :
    Advanced world next := by
  subst isNext
  have stays := stays_step (families grace) followed.numbered move
  have covered : ∀ id plan stamp, Covered world.store id plan stamp →
      Covered ((families grace).step world move).store id plan stamp := by
    rintro id plan stamp ⟨row, there, marks⟩
    refine ⟨row, customer row there, ?_⟩
    rw [plans]
    exact marks
  refine { followed := ?_, forward := fun id source is => ?_ }
  · refine
      { logged := followed.logged.step move
        numbered := followed.numbered.step move
        fits := (families_fitting grace).step followed.billed followed.fits
          move
        billed := fun id facts found => ?_
        told := fun id facts found => ?_
        writers := fun id source is answer has => ?_ }
    · rw [plans] at found
      obtain ⟨row, there⟩ :=
        Option.isSome_iff_exists.mp (followed.billed id facts found)
      exact Option.isSome_iff_exists.mpr ⟨row, customer row there⟩
    · rw [plans] at found
      rw [sources]
      obtain ⟨source, is, tells⟩ := followed.told id facts found
      exact ⟨source, is, tells.stays stays.1⟩
    · rw [sources] at is
      exact (followed.writers id source is answer has).stays stays covered
  · rw [sources]
    exact ⟨source, is, Nat.le_refl _, Nat.le_refl _, Nat.le_refl _⟩

/-- Only a flight whose stamp is current writes. -/
theorem Wrote.current
    {family next : Family}
    {stamp now : Nat}
    (wrote : Wrote family flight stamp now next) :
    familyCurrent family flight stamp = true := by
  have reconciled : (family.customer.any fun row =>
      newer row.reconciledFrom stamp) = false := by
    cases there : family.customer with
    | none =>
      rfl
    | some customer =>
      exact wrote.reconciled customer there
  rw [familyCurrent, reconciled, Bool.not_false, Bool.true_and]
  cases plan : flight.plan with
  | none =>
    cases there : family.customer with
    | none =>
      rfl
    | some customer =>
      dsimp only [Option.any_some]
      rw [wrote.changed plan customer there]
      rfl
  | some id =>
    cases there : family.plans.get? id with
    | none =>
      dsimp only
      rw [there]
      rfl
    | some row =>
      dsimp only
      rw [there, Option.any_some, wrote.own id plan row there]
      rfl

/-- A write in its turn leaves the family followed and moved forward. -/
theorem Followed.applied
    (followed : Followed world)
    {number : Nat}
    {stamp now : Nat}
    (found : world.flights.get? number = some flight)
    (stamped : flight.stamp = some stamp)
    (fit : Fit world.store flight)
    (ready : flight.ready = true)
    (wrote : Wrote world.store flight stamp now next.store)
    (turn : InTurn world flight stamp)
    (move : Move Priced Extra Op)
    (isNext : next = (families grace).step world move)
    (sources : next.sources = fun id =>
      familySource world.store flight id (world.sources id))
    (flights : next.flights =
      world.flights.set number { flight with written := true }) :
    Advanced world next := by
  have stays : Stays world next := by
    rw [isNext]
    exact stays_step (families grace) followed.numbered move
  have covered : ∀ id plan stamp, Covered world.store id plan stamp →
      Covered next.store id plan stamp :=
    fun id plan stamp covers => wrote.covered covers
  have own : ∀ id seen, flight.seen.get? id = some seen →
      Writer next id seen.answer := by
    intro id seen has
    refine ⟨number, { flight with written := true }, stamp, seen, ?_, rfl,
      stamped, has, rfl, wrote.covers fit ready has⟩
    rw [flights, get?_set, if_pos rfl]
  have unread : ∀ id, flight.seen.get? id = none →
      next.sources id = world.sources id := by
    intro id absent
    rw [sources]
    dsimp only [familySource]
    rw [absent]
  -- Whoever wrote a part of a row was answered before this reading was.
  have below : ∀ id source seen, world.sources id = some source →
      flight.seen.get? id = some seen →
        ∀ answer, source.Has answer → answer ≤ seen.answer := by
    intro id source seen is has answer part
    obtain ⟨other, earlier, at_, mine, there, written, numbered, had, rfl,
      covers⟩ := followed.writers id source is answer part
    have before : at_ ≤ stamp := by
      refine wrote.le covers fun change isChange => ?_
      exact (fit.change change isChange).2.2.2 id seen has
    exact followed.logged.le_of_inTurn found stamped turn there written
      numbered before had has
  refine { followed := ?_, forward := fun id source is => ?_ }
  · refine
      { logged := isNext ▸ followed.logged.step move
        numbered := isNext ▸ followed.numbered.step move
        fits := isNext ▸ (families_fitting grace).step followed.billed
          followed.fits move
        billed := fun id facts there => ?_
        told := fun id facts there => ?_
        writers := fun id later is answer part => ?_ }
    · cases has : flight.seen.get? id with
      | none =>
        rw [wrote.untouched ready has] at there
        rw [wrote.customer]
        exact isSome_after (followed.billed id facts there)
      | some seen =>
        obtain ⟨customer, isCustomer, _⟩ := wrote.covers fit ready has
        rw [isCustomer]
        rfl
    · cases has : flight.seen.get? id with
      | none =>
        rw [wrote.untouched ready has] at there
        rw [unread id has]
        obtain ⟨source, is, tells⟩ := followed.told id facts there
        exact ⟨source, is, tells.stays stays.1⟩
      | some seen =>
        obtain ⟨later, is, tells⟩ := wrote.tells fit has
          (followed.logged.answered number flight id seen found has)
          (followed.told id) there
        refine ⟨later, ?_, tells.stays stays.1⟩
        rw [sources]
        exact is
    · cases has : flight.seen.get? id with
      | none =>
        rw [unread id has] at is
        exact (followed.writers id later is answer part).stays stays covered
      | some seen =>
        rw [sources] at is
        rcases familySource_cases world.store has _ is answer part with
          rfl | ⟨earlier, wasSource, had⟩
        · exact own id seen has
        · exact (followed.writers id earlier wasSource answer had).stays
            stays covered
  · cases has : flight.seen.get? id with
    | none =>
      rw [unread id has]
      exact ⟨source, is, Nat.le_refl _, Nat.le_refl _, Nat.le_refl _⟩
    | some seen =>
      rw [sources]
      dsimp only
      rw [is]
      exact familySource_le world.store has (below id source seen is has)

/-- Every move in its turn only takes the family forward. -/
theorem Followed.step
    {world : World Family Priced}
    (followed : Followed world)
    (move : Move Priced Extra Op)
    (turn : (families grace).InTurn world move) :
    Advanced world ((families grace).step world move) := by
  have changed := (families grace).change_step world move
  generalize isNext : (families grace).step world move = next at changed
  cases changed with
  | quiet store sources =>
    refine followed.quiet move isNext.symm ?_ ?_ sources
    · rw [store]
    · intro row there
      rw [store]
      exact there
  | other store sources =>
    next op =>
    have spec := beside_spec grace world.store op
    refine followed.quiet (.other op) isNext.symm ?_ ?_ sources
    · rw [store]
      exact spec.1
    · intro row there
      rw [store]
      exact spec.2 row there
  | refused found stamped ready outcome store sources =>
    next number extra flight stamp =>
    have fit := followed.fits number flight found
    rcases familyWrite_spec grace fit ready stamp extra with
      ⟨_, same⟩ | ⟨applied, _⟩
    · have isStore : next.store = world.store := store.trans same
      refine followed.quiet (.write number extra) isNext.symm ?_ ?_ sources
      · rw [isStore]
      · intro row there
        rw [isStore]
        exact there
    · exact absurd applied outcome
  | applied found stamped ready outcome store sources flights =>
    next number extra flight stamp =>
    have fit := followed.fits number flight found
    rcases familyWrite_spec grace fit ready stamp extra with
      ⟨refused, _⟩ | ⟨_, wrote⟩
    · exact absurd outcome refused
    · have isStore : next.store =
          (familyWrite grace world.store flight stamp extra).2 := store
      rw [← isStore] at wrote
      exact followed.applied found stamped fit ready wrote
        (turn flight stamp found stamped ready wrote.current).1
        (.write number extra) isNext.symm sources flights

end Followed

end Billing

end HushOS
