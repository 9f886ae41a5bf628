import HushOS.Affiliates.Earnings
import Mathlib.Tactic.Common

namespace HushOS

open Toolkit List OrderedMap

namespace Affiliates

/-!
# The ledger of earnings

Every order has one earning at most, none once it is withdrawn, and none above
the rate it was read at; what an affiliate is owed is what its unpaid earnings
sum to.  An unpaid earning is lost where its affiliate is deleted over it: the
deletion reads what is owed before it deletes, in no transaction with it.  An
order refunded whole still earns where the plan had not lapsed.
-/

section Totals

/-- The unpaid amount of a currency. -/
def unpaidOf (totals : OrderedMap String Totals) (currency : String) : Int :=
  ((totals.get? currency).map Totals.unpaid).getD 0

theorem unpaidOf_addGroup
    (totals : OrderedMap String Totals)
    (row : (String × Bool) × Int)
    (currency : String) :
    unpaidOf (addGroup totals row) currency =
      unpaidOf totals currency +
        if row.1 = (currency, false) then row.2 else 0 := by
  obtain ⟨⟨other, paid⟩, amount⟩ := row
  simp only [unpaidOf, addGroup, get?_set, Prod.mk.injEq]
  by_cases same : currency = other
  · subst same
    cases paid <;> cases totals.get? currency <;> simp
  · simp [same, Ne.symm same]

theorem unpaidOf_foldl_addGroup
    (rows : List ((String × Bool) × Int))
    (totals : OrderedMap String Totals)
    (currency : String) :
    unpaidOf (rows.foldl addGroup totals) currency =
      unpaidOf totals currency +
        (rows.map fun row =>
          if row.1 = (currency, false) then row.2 else 0).sum := by
  induction rows generalizing totals with
  | nil =>
    simp
  | cons row rest inductionHypothesis =>
    rw [foldl_cons, inductionHypothesis, unpaidOf_addGroup,
      map_cons, sum_cons]
    omega

theorem sum_of_key
    {κ : Type}
    [DecidableEq κ]
    {keys : List κ}
    (once : keys.Nodup)
    (key : κ)
    (amount : κ → Int) :
    (keys.map fun other => if other = key then amount other else 0).sum =
      if key ∈ keys then amount key else 0 := by
  induction keys with
  | nil =>
    rfl
  | cons first rest inductionHypothesis =>
    obtain ⟨fresh, restOnce⟩ := nodup_cons.mp once
    rw [map_cons, sum_cons, inductionHypothesis restOnce]
    by_cases same : first = key
    · subst same
      simp [fresh]
    · simp [same, Ne.symm same]

/-- Grouping the earnings keeps the sum of each group. -/
theorem sum_grouped
    (earnings : List Earning)
    (key : String × Bool) :
    ((grouped earnings).map fun row =>
        if row.1 = key then row.2 else 0).sum =
      ((earnings.filter fun earning =>
        earning.group = key).map Earning.commissionAmount).sum := by
  rw [grouped, map_map]
  have keyed := sum_of_key (nodup_dedup (earnings.map Earning.group)) key
    fun other => ((earnings.filter fun earning =>
      earning.group = other).map Earning.commissionAmount).sum
  refine keyed.trans ?_
  split
  · rfl
  · next absent =>
      have nobody : (earnings.filter fun earning =>
          earning.group = key) = [] := by
        refine filter_eq_nil_iff.mpr fun earning member same => absent ?_
        refine mem_dedup.mpr (mem_map.mpr ⟨earning, member, ?_⟩)
        exact of_decide_eq_true same
      rw [nobody]
      rfl

/-- A currency's unpaid total sums its unpaid earnings. -/
theorem unpaidOf_earningTotals
    (earnings : List Earning)
    (currency : String) :
    unpaidOf (earningTotals earnings) currency =
      ((earnings.filter fun earning =>
        earning.currency = currency ∧ earning.paidAt = none).map
          Earning.commissionAmount).sum := by
  rw [earningTotals, unpaidOf_foldl_addGroup, sum_grouped]
  have nothing : unpaidOf .empty currency = 0 := rfl
  have same : (earnings.filter fun earning =>
      earning.group = (currency, false)) =
      earnings.filter fun earning =>
        earning.currency = currency ∧ earning.paidAt = none := by
    refine filter_congr fun earning _ => ?_
    rw [decide_eq_decide, Earning.group, Prod.mk.injEq,
      Option.isSome_eq_false_iff, Option.isNone_iff_eq_none]
  rw [nothing, same, Int.zero_add]

/-- Where no total is unpaid no unpaid earning owes anything. -/
theorem none_owed
    {earnings : List Earning}
    (nonneg : ∀ earning ∈ earnings, 0 ≤ earning.commissionAmount)
    (nothing : ((earningTotals earnings).values.any fun total =>
      0 < total.unpaid) = false)
    {earning : Earning}
    (member : earning ∈ earnings)
    (unpaid : earning.paidAt = none) :
    earning.commissionAmount ≤ 0 := by
  have total := unpaidOf_earningTotals earnings earning.currency
  have here : earning ∈ earnings.filter fun other =>
      other.currency = earning.currency ∧ other.paidAt = none := by
    refine mem_filter.mpr ⟨member, ?_⟩
    simp [unpaid]
  have below : earning.commissionAmount ≤
      ((earnings.filter fun other =>
        other.currency = earning.currency ∧ other.paidAt = none).map
          Earning.commissionAmount).sum := by
    refine single_le_sum ?_ _ (mem_map_of_mem here)
    intro amount amounts
    obtain ⟨other, otherMember, rfl⟩ := mem_map.mp amounts
    exact nonneg other (mem_filter.mp otherMember).1
  have owed : unpaidOf (earningTotals earnings) earning.currency ≤ 0 := by
    unfold unpaidOf
    cases found : (earningTotals earnings).get? earning.currency with
    | none =>
      exact Int.le_refl 0
    | some totals =>
      have listed : totals ∈ (earningTotals earnings).values :=
        mem_values.mpr ⟨_, found⟩
      have notOwed := any_eq_false.mp nothing totals listed
      simpa using notOwed
  omega

end Totals

/-- The same earning, with nobody named, paid out or marked since. -/
structure Keeps (earning later : Earning) : Prop where
  affiliateId : later.affiliateId = earning.affiliateId
  orderId : later.orderId = earning.orderId
  currency : later.currency = earning.currency
  netAmount : later.netAmount = earning.netAmount
  commissionAmount : later.commissionAmount = earning.commissionAmount
  /-- What is paid stays paid. -/
  paid : earning.paidAt ≠ none → later.paidAt ≠ none

theorem Keeps.refl (earning : Earning) : Keeps earning earning where
  affiliateId := rfl
  orderId := rfl
  currency := rfl
  netAmount := rfl
  commissionAmount := rfl
  paid := id

/-- An earning that a delivery records: the first of its order. -/
structure Recorded
    (state : State)
    (id : Nat)
    (order : Order)
    (commissionBps : Nat)
    (earning : Earning) : Prop where
  flight : state.flights.get? id =
    some (.recording order earning.affiliateId commissionBps)
  orderId : earning.orderId = order.id
  net : order.netAmount = some earning.netAmount
  positive : 0 < earning.netAmount
  commission : earning.commissionAmount =
    State.commissionOf earning.netAmount commissionBps
  notWithdrawn : order.id ∉ state.withdrawnOrders
  first : ∀ other ∈ state.earnings, other.orderId ≠ order.id

/-- What a step does to the ledger. -/
inductive Change (state : State) (action : Action) (after : State) : Prop
  /-- Nothing. -/
  | same
      (earnings : after.earnings = state.earnings)
      (withdrawn : after.withdrawnOrders = state.withdrawnOrders)
  /-- A delivery records the first earning of its order. -/
  | recorded
      {id : Nat}
      {order : Order}
      {commissionBps : Nat}
      {earning : Earning}
      (acted : action = .advance id)
      (is : Recorded state id order commissionBps earning)
      (earnings : after.earnings = state.earnings ++ [earning])
      (withdrawn : after.withdrawnOrders = state.withdrawnOrders)
  /-- Earnings are paid out, marked, or lose their customer's name. -/
  | rewritten
      (change : Earning → Earning)
      (keeps : ∀ earning, Keeps earning (change earning))
      (earnings : after.earnings = state.earnings.map change)
      (withdrawn : after.withdrawnOrders = state.withdrawnOrders)
  /-- An order is withdrawn, its unpaid earning with it. -/
  | withdrawn
      (orderId : String)
      (orders : ∀ other, other ∈ after.withdrawnOrders ↔
        other = orderId ∨ other ∈ state.withdrawnOrders)
      (change : Earning → Earning)
      (keeps : ∀ earning, Keeps earning (change earning))
      (earnings : after.earnings = (state.earnings.filter fun earning =>
        ¬ (earning.orderId = orderId ∧ earning.paidAt = none)).map change)
  /-- An affiliate is deleted. -/
  | deleted
      {id : Nat}
      {affiliateId : Uuid}
      (acted : action = .advance id)
      (flight : state.flights.get? id = some (.deleting affiliateId))
      (earnings : after.earnings = state.earnings.filter fun earning =>
        earning.affiliateId ≠ affiliateId)
      (withdrawn : after.withdrawnOrders = state.withdrawnOrders)

/-- Recording an earning is one of the changes a step may make. -/
theorem change_recordEarning
    {state : State}
    {id : Nat}
    {order : Order}
    {affiliateId commissionBps : Nat}
    (flight : state.flights.get? id =
      some (.recording order affiliateId commissionBps))
    {netAmount : Int}
    (net : order.netAmount = some netAmount)
    (currency : String) :
    Change state (.advance id) ((state.recordEarning order.id order.userId currency
      netAmount affiliateId commissionBps).finish id) := by
  unfold State.recordEarning
  split
  · exact .same rfl rfl
  · next positive =>
      split
      · exact .same rfl rfl
      · next notWithdrawn =>
          split
          · exact .same rfl rfl
          · next unrecorded =>
              split
              · exact .same rfl rfl
              · refine .recorded rfl
                  { flight := flight
                    orderId := rfl
                    net := net
                    positive := Int.not_le.mp positive
                    commission := rfl
                    notWithdrawn := notWithdrawn
                    first := fun other member same => ?_ } rfl rfl
                apply unrecorded
                exact any_eq_true.mpr
                  ⟨other, member, decide_eq_true same⟩

/-- Withdrawing an earning is one of the changes a step may make. -/
theorem change_withdrawEarning
    (state : State)
    (orderId : String)
    (now : Nat)
    (action : Action) :
    Change state action (state.withdrawEarning orderId now) := by
  have orders : ∀ other,
      (other ∈ if orderId ∈ state.withdrawnOrders then
          state.withdrawnOrders
        else orderId :: state.withdrawnOrders) ↔
        other = orderId ∨ other ∈ state.withdrawnOrders := by
    intro other
    split
    · next there =>
        constructor
        · exact .inr
        · rintro (rfl | member)
          · exact there
          · exact member
    · exact mem_cons
  unfold State.withdrawEarning
  dsimp only
  split
  · refine .withdrawn orderId orders id Keeps.refl ?_
    exact (map_id _).symm
  · next nobody =>
      refine .withdrawn orderId orders
        (fun earning =>
          if earning.orderId = orderId ∧ earning.orderRefundedAt = none then
            { earning with orderRefundedAt := some now }
          else
            earning)
        (fun earning => ?_) ?_
      · split
        · exact ⟨rfl, rfl, rfl, rfl, rfl, id⟩
        · exact Keeps.refl earning
      · have kept : (state.earnings.filter fun earning =>
            ¬ (earning.orderId = orderId ∧ earning.paidAt = none)) =
              state.earnings := by
          refine filter_eq_self.mpr fun earning member => ?_
          refine decide_eq_true fun unpaid => nobody ?_
          exact any_eq_true.mpr
            ⟨earning, member, decide_eq_true unpaid⟩
        rw [kept]

/-- What is in flight is no part of the ledger. -/
theorem Change.put
    {state after : State}
    {action : Action}
    (change : Change state action after)
    (id : Nat)
    (flight : Flight) :
    Change state action (after.put id flight) := by
  cases change with
  | same earnings withdrawn =>
    exact .same earnings withdrawn
  | recorded acted is earnings withdrawn =>
    exact .recorded acted is earnings withdrawn
  | rewritten change keeps earnings withdrawn =>
    exact .rewritten change keeps earnings withdrawn
  | withdrawn orderId orders change keeps earnings =>
    exact .withdrawn orderId orders change keeps earnings
  | deleted acted flight earnings withdrawn =>
    exact .deleted acted flight earnings withdrawn

/-- Every step does one of these to the ledger. -/
theorem change_step (state : State) (action : Action) :
    Change state action (step state action) := by
  cases action with
  | enrol userId =>
    dsimp only [step]
    split <;> exact .same rfl rfl
  | leave userId =>
    refine .rewritten (fun earning =>
      if earning.userId = some userId then
        { earning with userId := none }
      else
        earning) (fun earning => ?_) rfl rfl
    split
    · exact ⟨rfl, rfl, rfl, rfl, rfl, id⟩
    · exact Keeps.refl earning
  | affiliate affiliateId row =>
    dsimp only [step]
    split <;> exact .same rfl rfl
  | arrive userId affiliateId =>
    dsimp only [step]
    split <;> exact .same rfl rfl
  | deliver id order =>
    dsimp only [step]
    split <;> exact .same rfl rfl
  | remove id affiliateId =>
    dsimp only [step]
    split <;> exact .same rfl rfl
  | advance id =>
    dsimp only [step, State.advance]
    split
    · exact .same rfl rfl
    · split
      · unfold State.foundAffiliate
        split <;> exact .same rfl rfl
      · exact .same rfl rfl
    · split
      · unfold State.foundAffiliate
        split <;> exact .same rfl rfl
      · exact .same rfl rfl
    · next order affiliateId commissionBps flight =>
        split
        · next netAmount currency net _ =>
            exact change_recordEarning flight net currency
        · exact .same rfl rfl
    · split <;> exact .same rfl rfl
    · split <;> exact .same rfl rfl
    · exact .same rfl rfl
    · next affiliateId flight =>
        exact .deleted rfl flight rfl rfl
    · next orderId lapsed now flight =>
        cases lapsed with
        | false =>
          exact .same rfl rfl
        | true =>
          exact (change_withdrawEarning state orderId now _).put id _
    · exact .same rfl rfl
  | fail id =>
    exact .same rfl rfl
  | withdraw orderId now =>
    exact change_withdrawEarning state orderId now _
  | refund id orderId lapsed now =>
    dsimp only [step]
    split <;> exact .same rfl rfl
  | pay affiliateId now =>
    refine .rewritten (fun earning =>
      if earning.affiliateId = affiliateId ∧ earning.paidAt = none then
        { earning with paidAt := some now }
      else
        earning) (fun earning => ?_) rfl rfl
    split
    · exact ⟨rfl, rfl, rfl, rfl, rfl, fun _ => nofun⟩
    · exact Keeps.refl earning

/--
An earning was there before, and was paid if its order was withdrawn since, or
it is recorded.
-/
theorem Change.origin
    {state after : State}
    {action : Action}
    (change : Change state action after)
    {earning : Earning}
    (member : earning ∈ after.earnings) :
    (∃ before ∈ state.earnings, Keeps before earning ∧
        (earning.orderId ∈ after.withdrawnOrders →
          before.orderId ∈ state.withdrawnOrders ∨ before.paidAt ≠ none)) ∨
      ∃ id order commissionBps, action = .advance id ∧
        Recorded state id order commissionBps earning ∧
          after.withdrawnOrders = state.withdrawnOrders := by
  cases change with
  | same earnings withdrawn =>
    rw [earnings] at member
    rw [withdrawn]
    exact .inl ⟨earning, member, Keeps.refl earning, .inl⟩
  | recorded acted is earnings withdrawn =>
    rw [earnings] at member
    rcases mem_append.mp member with before | new
    · rw [withdrawn]
      exact .inl ⟨earning, before, Keeps.refl earning, .inl⟩
    · cases mem_singleton.mp new
      exact .inr ⟨_, _, _, acted, is, withdrawn⟩
  | rewritten change keeps earnings withdrawn =>
    rw [earnings] at member
    rw [withdrawn]
    obtain ⟨before, there, rfl⟩ := mem_map.mp member
    refine .inl ⟨before, there, keeps before, fun inOrders => .inl ?_⟩
    exact (keeps before).orderId ▸ inOrders
  | withdrawn orderId orders change keeps earnings =>
    rw [earnings] at member
    obtain ⟨before, there, rfl⟩ := mem_map.mp member
    obtain ⟨was, stays⟩ := mem_filter.mp there
    refine .inl ⟨before, was, keeps before, fun inOrders => ?_⟩
    rw [(keeps before).orderId] at inOrders
    rcases (orders before.orderId).mp inOrders with same | already
    · exact .inr fun unpaid => of_decide_eq_true stays ⟨same, unpaid⟩
    · exact .inl already
  | deleted acted flight earnings withdrawn =>
    rw [earnings] at member
    rw [withdrawn]
    exact .inl ⟨earning, (mem_filter.mp member).1, Keeps.refl earning,
      .inl⟩

/-- Where what is in flight after a step comes from. -/
inductive Flown (state : State) (action : Action) (id : Nat) :
    Flight → Prop
  | kept
      {flight : Flight}
      (before : state.flights.get? id = some flight) :
      Flown state action id flight
  | delivered
      {order : Order}
      (asked : action = .deliver id order) :
      Flown state action id (.byDiscount order)
  | passed
      {order : Order}
      (before : state.flights.get? id = some (.byDiscount order)) :
      Flown state action id (.byCustomer order)
  | found
      {order : Order}
      {affiliateId : Uuid}
      {row : Affiliate}
      (before : state.flights.get? id = some (.byDiscount order) ∨
        state.flights.get? id = some (.byCustomer order))
      (there : state.affiliates.get? affiliateId = some row) :
      Flown state action id (.recording order affiliateId row.commissionBps)
  | asked
      (affiliateId : Uuid) :
      Flown state action id (.reading affiliateId)
  | read
      (affiliateId : Uuid) :
      Flown state action id (.owing affiliateId)
  | unowed
      {affiliateId : Uuid}
      (acted : action = .advance id)
      (before : state.flights.get? id = some (.owing affiliateId))
      (nothing : ((earningTotals (earningsOf state.earnings
        affiliateId)).values.any fun total => 0 < total.unpaid) = false) :
      Flown state action id (.discounting affiliateId)
  | discounted
      {affiliateId : Uuid}
      (before : state.flights.get? id = some (.discounting affiliateId)) :
      Flown state action id (.deleting affiliateId)
  | ended
      {orderId : String}
      {lapsed : Bool}
      {now : Nat}
      (asked : action = .refund id orderId lapsed now) :
      Flown state action id (.ending orderId lapsed now)
  | refunding
      {orderId : String}
      {lapsed : Bool}
      {now : Nat}
      (acted : action = .advance id)
      (before : state.flights.get? id = some (.ending orderId lapsed now)) :
      Flown state action id (.refunding orderId)

section Flights

variable {state : State} {id other : Nat} {flight made : Flight}

theorem flight_of_put
    (found : (state.put id made).flights.get? other = some flight) :
    other = id ∧ flight = made ∨ state.flights.get? other = some flight := by
  rw [State.put, get?_set] at found
  split at found
  · next same =>
      exact .inl ⟨same, (Option.some.inj found).symm⟩
  · exact .inr found

theorem flight_of_finish
    (found : (state.finish id).flights.get? other = some flight) :
    state.flights.get? other = some flight := by
  rw [State.finish, get?_erase] at found
  split at found
  · cases found
  · exact found

theorem flown_foundAffiliate
    {order : Order}
    {affiliateId : Uuid}
    {row : Affiliate}
    (before : state.flights.get? id = some (.byDiscount order) ∨
      state.flights.get? id = some (.byCustomer order))
    (there : state.affiliates.get? affiliateId = some row)
    (found : (state.foundAffiliate id order affiliateId row).flights.get?
      other = some flight) :
    Flown state (.advance id) other flight := by
  unfold State.foundAffiliate at found
  split at found
  · rcases flight_of_put found with ⟨rfl, rfl⟩ | kept
    · exact .found before there
    · exact .kept kept
  · exact .kept (flight_of_finish found)

theorem flights_recordEarning
    (state : State)
    (orderId : String)
    (userId : Option Uuid)
    (currency : String)
    (netAmount : Int)
    (affiliateId : Uuid)
    (commissionBps : Nat) :
    (state.recordEarning orderId userId currency netAmount affiliateId
      commissionBps).flights = state.flights := by
  unfold State.recordEarning
  split
  · rfl
  · split
    · rfl
    · split
      · rfl
      · split <;> rfl

theorem flights_withdrawEarning
    (state : State)
    (orderId : String)
    (now : Nat) :
    (state.withdrawEarning orderId now).flights = state.flights := by
  unfold State.withdrawEarning
  dsimp only
  split <;> rfl

/-- A flight after an advance was in the air before it. -/
theorem flown_advance
    (found : (state.advance id).flights.get? other = some flight) :
    Flown state (.advance id) other flight := by
  unfold State.advance at found
  split at found
  · exact .kept found
  · next order before =>
      split at found
      · next affiliateId row selected =>
          refine flown_foundAffiliate (.inl before) ?_ found
          obtain ⟨discountId, _, searched⟩ := Option.bind_eq_some_iff.mp selected
          exact mem_entries.mp (mem_of_find?_eq_some searched)
      · rcases flight_of_put found with ⟨rfl, rfl⟩ | kept
        · exact .passed before
        · exact .kept kept
  · next order before =>
      split at found
      · next affiliateId row selected =>
          refine flown_foundAffiliate (.inr before) ?_ found
          obtain ⟨userId, _, searched⟩ := Option.bind_eq_some_iff.mp selected
          obtain ⟨through, _, joined⟩ := Option.bind_eq_some_iff.mp searched
          obtain ⟨joinedRow, there, same⟩ := Option.map_eq_some_iff.mp joined
          cases same
          exact there
      · exact .kept (flight_of_finish found)
  · next order affiliateId commissionBps before =>
      split at found
      · have kept := flight_of_finish found
        rw [flights_recordEarning] at kept
        exact .kept kept
      · exact .kept (flight_of_finish found)
  · next affiliateId before =>
      split at found
      · rcases flight_of_put found with ⟨rfl, rfl⟩ | kept
        · exact .read affiliateId
        · exact .kept kept
      · exact .kept (flight_of_finish found)
  · next affiliateId before =>
      split at found
      · exact .kept (flight_of_finish found)
      · next unowed =>
          rcases flight_of_put found with ⟨rfl, rfl⟩ | kept
          · exact .unowed rfl before (Bool.eq_false_iff.mpr unowed)
          · exact .kept kept
  · next affiliateId before =>
      rcases flight_of_put found with ⟨rfl, rfl⟩ | kept
      · exact .discounted before
      · exact .kept kept
  · next affiliateId before =>
      exact .kept (flight_of_finish found)
  · next orderId lapsed now before =>
      rcases flight_of_put found with ⟨rfl, rfl⟩ | kept
      · exact .refunding rfl before
      · refine .kept ?_
        split at kept
        · rw [flights_withdrawEarning] at kept
          exact kept
        · exact kept
  · next orderId before =>
      exact .kept (flight_of_finish found)

/-- A flight after a step was in the air or was started by it. -/
theorem flown_step
    {action : Action}
    (found : (step state action).flights.get? other = some flight) :
    Flown state action other flight := by
  cases action with
  | enrol userId =>
    dsimp only [step] at found
    split at found <;> exact .kept found
  | leave userId =>
    exact .kept found
  | affiliate affiliateId row =>
    dsimp only [step] at found
    split at found <;> exact .kept found
  | arrive userId affiliateId =>
    dsimp only [step] at found
    split at found <;> exact .kept found
  | deliver id order =>
    dsimp only [step] at found
    split at found
    · exact .kept found
    · rcases flight_of_put found with ⟨rfl, rfl⟩ | kept
      · exact .delivered rfl
      · exact .kept kept
  | remove id affiliateId =>
    dsimp only [step] at found
    split at found
    · exact .kept found
    · rcases flight_of_put found with ⟨rfl, rfl⟩ | kept
      · exact .asked affiliateId
      · exact .kept kept
  | advance id =>
    exact flown_advance found
  | fail id =>
    exact .kept (flight_of_finish found)
  | withdraw orderId now =>
    have kept : (state.withdrawEarning orderId now).flights.get? other =
        some flight := found
    rw [flights_withdrawEarning] at kept
    exact .kept kept
  | refund id orderId lapsed now =>
    dsimp only [step] at found
    split at found
    · exact .kept found
    · rcases flight_of_put found with ⟨rfl, rfl⟩ | kept
      · exact .ended rfl
      · exact .kept kept
  | pay affiliateId now =>
    exact .kept found

end Flights

/-- What holds of the ledger in every state. -/
structure Ledger (state : State) : Prop where
  /-- An order has one earning. -/
  once : state.earnings.Pairwise fun earning later =>
    earning.orderId ≠ later.orderId
  /-- A withdrawn order's earning was paid before. -/
  settled : ∀ earning ∈ state.earnings,
    earning.orderId ∈ state.withdrawnOrders → earning.paidAt ≠ none
  /-- Nobody owes commission. -/
  nonneg : ∀ earning ∈ state.earnings, 0 ≤ earning.commissionAmount

namespace Ledger

theorem empty : Ledger .empty where
  once := List.Pairwise.nil
  settled := nofun
  nonneg := nofun

theorem once_map
    {earnings : List Earning}
    (once : earnings.Pairwise fun earning later =>
      earning.orderId ≠ later.orderId)
    {change : Earning → Earning}
    (keeps : ∀ earning, Keeps earning (change earning)) :
    (earnings.map change).Pairwise fun earning later =>
      earning.orderId ≠ later.orderId := by
  refine pairwise_map.mpr (once.imp fun {earning later} differ => ?_)
  rw [(keeps earning).orderId, (keeps later).orderId]
  exact differ

/-- Every step leaves an order one earning at most. -/
theorem once_step
    {state : State}
    (ledger : Ledger state)
    (action : Action) :
    (step state action).earnings.Pairwise fun earning later =>
      earning.orderId ≠ later.orderId := by
  cases change_step state action with
  | same earnings withdrawn =>
    rw [earnings]
    exact ledger.once
  | recorded acted is earnings withdrawn =>
    rw [earnings]
    refine pairwise_append.mpr ⟨ledger.once,
      pairwise_singleton _ _, fun other member later isLater => ?_⟩
    rw [mem_singleton.mp isLater, is.orderId]
    exact is.first other member
  | rewritten change keeps earnings withdrawn =>
    rw [earnings]
    exact once_map ledger.once keeps
  | withdrawn orderId orders change keeps earnings =>
    rw [earnings]
    exact once_map (ledger.once.sublist filter_sublist) keeps
  | deleted acted flight earnings withdrawn =>
    rw [earnings]
    exact ledger.once.sublist filter_sublist

/-- Every step keeps what holds of the ledger. -/
theorem step
    {state : State}
    (ledger : Ledger state)
    (action : Action) :
    Ledger (step state action) := by
  refine { once := ledger.once_step action, settled := ?_, nonneg := ?_ }
  · intro earning member inOrders
    rcases (change_step state action).origin member with
      ⟨before, there, keeps, was⟩ | ⟨id, order, _, _, is, withdrawn⟩
    · rcases was inOrders with already | paid
      · exact keeps.paid (ledger.settled before there already)
      · exact keeps.paid paid
    · rw [withdrawn, is.orderId] at inOrders
      exact absurd inOrders is.notWithdrawn
  · intro earning member
    rcases (change_step state action).origin member with
      ⟨before, there, keeps, _⟩ | ⟨id, order, _, _, is, _⟩
    · rw [keeps.commissionAmount]
      exact ledger.nonneg before there
    · rw [is.commission]
      refine Int.ediv_nonneg ?_ (by decide)
      exact Int.mul_nonneg is.positive.le (Int.natCast_nonneg _)

theorem run (actions : List Action) : Ledger (run actions) :=
  Runs.keeps_of_step Ledger (fun _ action ledger => ledger.step action)
    actions empty

end Ledger

/-- An order once withdrawn stays withdrawn. -/
theorem withdrawn_step
    {state : State}
    (action : Action)
    {orderId : String}
    (inOrders : orderId ∈ state.withdrawnOrders) :
    orderId ∈ (step state action).withdrawnOrders := by
  cases change_step state action with
  | same earnings withdrawn =>
    rw [withdrawn]
    exact inOrders
  | recorded acted is earnings withdrawn =>
    rw [withdrawn]
    exact inOrders
  | rewritten change keeps earnings withdrawn =>
    rw [withdrawn]
    exact inOrders
  | withdrawn other orders change keeps earnings =>
    exact (orders orderId).mpr (.inr inOrders)
  | deleted acted flight earnings withdrawn =>
    rw [withdrawn]
    exact inOrders

/-- An affiliate's rate was this somewhere in a run. -/
def RateOf
    (actions : List Action)
    (affiliateId : Uuid)
    (commissionBps : Nat) : Prop :=
  ∃ earlier, earlier <+: actions ∧
    ∃ row, (run earlier).affiliates.get? affiliateId = some row ∧
      row.commissionBps = commissionBps

/-- An order was delivered in a run. -/
def DeliveredIn (actions : List Action) (order : Order) : Prop :=
  ∃ id, .deliver id order ∈ actions

/-- What is recorded is of a delivered order, at a rate that was in force. -/
structure Rated (actions : List Action) (state : State) : Prop where
  recorded : ∀ earning ∈ state.earnings,
    ∃ order commissionBps, DeliveredIn actions order ∧
      order.id = earning.orderId ∧
      order.netAmount = some earning.netAmount ∧
      RateOf actions earning.affiliateId commissionBps ∧
      earning.commissionAmount =
        State.commissionOf earning.netAmount commissionBps
  looking : ∀ id order,
    state.flights.get? id = some (.byDiscount order) ∨
        state.flights.get? id = some (.byCustomer order) →
      DeliveredIn actions order
  recording : ∀ id order affiliateId commissionBps,
    state.flights.get? id =
        some (.recording order affiliateId commissionBps) →
      DeliveredIn actions order ∧ RateOf actions affiliateId commissionBps

section Rates

variable {actions : List Action} {state : State}

theorem RateOf.more
    {affiliateId commissionBps : Nat}
    (rate : RateOf actions affiliateId commissionBps)
    (action : Action) :
    RateOf (actions ++ [action]) affiliateId commissionBps := by
  obtain ⟨earlier, started, there⟩ := rate
  exact ⟨earlier, started.trans (prefix_append _ _), there⟩

theorem DeliveredIn.more
    {order : Order}
    (delivered : DeliveredIn actions order)
    (action : Action) :
    DeliveredIn (actions ++ [action]) order := by
  obtain ⟨id, member⟩ := delivered
  exact ⟨id, mem_append_left _ member⟩

/-- Every step leaves commissions at the rates of the run so far. -/
theorem Rated.step
    (rated : Rated actions (run actions))
    (action : Action) :
    Rated (actions ++ [action]) (step (run actions) action) := by
  refine { recorded := ?_, looking := ?_, recording := ?_ }
  · intro earning member
    rcases (change_step (run actions) action).origin member with
      ⟨before, there, keeps, _⟩ | ⟨id, order, commissionBps, _, is, _⟩
    · obtain ⟨order, commissionBps, delivered, same, net, rate, commission⟩ :=
        rated.recorded before there
      rw [keeps.orderId, keeps.netAmount, keeps.affiliateId,
        keeps.commissionAmount]
      exact ⟨order, commissionBps, delivered.more action, same, net,
        rate.more action, commission⟩
    · obtain ⟨delivered, rate⟩ := rated.recording id order _ _ is.flight
      exact ⟨order, commissionBps, delivered.more action, is.orderId.symm,
        is.net, rate.more action, is.commission⟩
  · rintro id order (found | found)
    · cases flown_step found with
      | kept before =>
        exact (rated.looking id order (.inl before)).more action
      | delivered asked =>
        exact ⟨id, mem_append_right _
          (asked ▸ mem_singleton_self _)⟩
    · cases flown_step found with
      | kept before =>
        exact (rated.looking id order (.inr before)).more action
      | passed before =>
        exact (rated.looking id order (.inl before)).more action
  · intro id order affiliateId commissionBps found
    cases flown_step found with
    | kept before =>
      obtain ⟨delivered, rate⟩ := rated.recording id order affiliateId
        commissionBps before
      exact ⟨delivered.more action, rate.more action⟩
    | found before there =>
      refine ⟨(rated.looking id order before).more action, actions,
        prefix_append _ _, _, there, rfl⟩

end Rates

/-- An earning is still there, paid or not, or its order was withdrawn. -/
def Accounted (after : State) (earning : Earning) : Prop :=
  earning.orderId ∈ after.withdrawnOrders ∨
    ∃ later ∈ after.earnings, Keeps earning later

/-- A deletion that has read what this affiliate is owed, and goes on. -/
def Flight.deletes (affiliateId : Uuid) : Flight → Bool
  | .discounting other => other = affiliateId
  | .deleting other => other = affiliateId
  | _ => false

/--
An order that has no earning, and never lost one, is not recorded for an
affiliate whose deletion has read what it is owed; and a deletion reads of no
affiliate that only what comes to nothing is unpaid.
-/
def CalmAt (state : State) : Flight → Prop
  | .recording order affiliateId _ =>
    order.id ∈ state.withdrawnOrders ∨
      (∃ earning ∈ state.earnings, earning.orderId = order.id) ∨
        ∀ entry ∈ state.flights.entries,
          entry.2.deletes affiliateId = false
  | .owing affiliateId =>
    (∃ earning ∈ state.earnings,
        earning.affiliateId = affiliateId ∧ earning.paidAt = none) →
      ∃ earning ∈ state.earnings,
        (earning.affiliateId = affiliateId ∧ earning.paidAt = none) ∧
          0 < earning.commissionAmount
  | _ => True

/-- What is in flight is calm, and what an ending refunds is a lapsed plan's. -/
def Calm (state : State) : Action → Prop
  | .advance id => ∀ flight ∈ state.flights.get? id, CalmAt state flight
  | .refund _ _ lapsed _ => lapsed = true
  | _ => True

instance CalmAt.decidable (state : State) :
    ∀ flight, Decidable (CalmAt state flight)
  | .recording order affiliateId _ =>
    inferInstanceAs (Decidable (order.id ∈ state.withdrawnOrders ∨
      (∃ earning ∈ state.earnings, earning.orderId = order.id) ∨
        ∀ entry ∈ state.flights.entries,
          entry.2.deletes affiliateId = false))
  | .owing affiliateId =>
    inferInstanceAs (Decidable ((∃ earning ∈ state.earnings,
        earning.affiliateId = affiliateId ∧ earning.paidAt = none) →
      ∃ earning ∈ state.earnings,
        (earning.affiliateId = affiliateId ∧ earning.paidAt = none) ∧
          0 < earning.commissionAmount))
  | .byDiscount _ => isTrue trivial
  | .byCustomer _ => isTrue trivial
  | .reading _ => isTrue trivial
  | .discounting _ => isTrue trivial
  | .deleting _ => isTrue trivial
  | .ending _ _ _ => isTrue trivial
  | .refunding _ => isTrue trivial

instance Calm.decidable (state : State) :
    ∀ action, Decidable (Calm state action)
  | .advance id =>
    inferInstanceAs (Decidable
      (∀ flight ∈ state.flights.get? id, CalmAt state flight))
  | .refund _ _ lapsed _ => inferInstanceAs (Decidable (lapsed = true))
  | .enrol _ => isTrue trivial
  | .leave _ => isTrue trivial
  | .affiliate _ _ => isTrue trivial
  | .arrive _ _ => isTrue trivial
  | .deliver _ _ => isTrue trivial
  | .remove _ _ => isTrue trivial
  | .fail _ => isTrue trivial
  | .withdraw _ _ => isTrue trivial
  | .pay _ _ => isTrue trivial

/-- What calm steps keep, beside the ledger. -/
structure Quiet (state : State) : Prop where
  ledger : Ledger state
  /-- A deletion that goes on has nothing unpaid to delete. -/
  cleared : ∀ id flight affiliateId,
    state.flights.get? id = some flight →
      flight.deletes affiliateId = true →
        ∀ earning ∈ state.earnings,
          earning.affiliateId = affiliateId → earning.paidAt ≠ none
  /-- What an ending is about to refund is a lapsed plan's. -/
  lapsed : ∀ id orderId lapsed now,
    state.flights.get? id = some (.ending orderId lapsed now) →
      lapsed = true
  /-- An order was withdrawn before its refund is asked for. -/
  asked : ∀ id orderId,
    state.flights.get? id = some (.refunding orderId) →
      orderId ∈ state.withdrawnOrders
  /-- An order refunded whole was withdrawn. -/
  refunded : ∀ orderId ∈ state.refundedOrders,
    orderId ∈ state.withdrawnOrders

section Calmly

variable {state : State} {action : Action}

/-- What is withdrawn is among the orders withdrawn. -/
theorem mem_withdrawEarning
    (state : State)
    (orderId : String)
    (now : Nat) :
    orderId ∈ (state.withdrawEarning orderId now).withdrawnOrders := by
  have listed : orderId ∈
      if orderId ∈ state.withdrawnOrders then state.withdrawnOrders
      else orderId :: state.withdrawnOrders := by
    split
    · assumption
    · exact mem_cons_self
  unfold State.withdrawEarning
  dsimp only
  split <;> exact listed

/-- An order is refunded by the refund that was asked for it. -/
theorem refunded_step
    {orderId : String}
    (refunded : orderId ∈ (step state action).refundedOrders) :
    orderId ∈ state.refundedOrders ∨
      ∃ id, state.flights.get? id = some (.refunding orderId) := by
  have same : ∀ other now,
      (state.withdrawEarning other now).refundedOrders =
        state.refundedOrders := by
    intro other now
    unfold State.withdrawEarning
    dsimp only
    split <;> rfl
  cases action with
  | advance id =>
    dsimp only [step, State.advance] at refunded
    split at refunded
    · exact .inl refunded
    · unfold State.foundAffiliate at refunded
      split at refunded
      · split at refunded <;> exact .inl refunded
      · exact .inl refunded
    · unfold State.foundAffiliate at refunded
      split at refunded
      · split at refunded <;> exact .inl refunded
      · exact .inl refunded
    · split at refunded
      · unfold State.recordEarning at refunded
        refine .inl ?_
        split at refunded
        · exact refunded
        · split at refunded
          · exact refunded
          · split at refunded
            · exact refunded
            · split at refunded <;> exact refunded
      · exact .inl refunded
    · split at refunded <;> exact .inl refunded
    · split at refunded <;> exact .inl refunded
    · exact .inl refunded
    · exact .inl refunded
    · next other lapsed now flight =>
        refine .inl ?_
        cases lapsed with
        | false =>
          exact refunded
        | true =>
          exact same other now ▸ refunded
    · next other flight =>
        rcases mem_cons.mp refunded with rfl | before
        · exact .inr ⟨id, flight⟩
        · exact .inl before
  | withdraw other now =>
    exact .inl (same other now ▸ refunded)
  | leave userId =>
    exact .inl refunded
  | fail id =>
    exact .inl refunded
  | pay affiliateId now =>
    exact .inl refunded
  | _ =>
    dsimp only [step] at refunded
    split at refunded <;> exact .inl refunded

/-- A deletion that goes on did before, or has just read that nothing is owed. -/
theorem deletes_step
    {id : Nat}
    {flight : Flight}
    {affiliateId : Uuid}
    (found : (step state action).flights.get? id = some flight)
    (deletes : flight.deletes affiliateId = true) :
    (∃ before, state.flights.get? id = some before ∧
        before.deletes affiliateId = true) ∨
      action = .advance id ∧
        state.flights.get? id = some (.owing affiliateId) ∧
          ((earningTotals (earningsOf state.earnings
            affiliateId)).values.any fun total => 0 < total.unpaid) =
              false := by
  cases flown_step found with
  | kept before =>
    exact .inl ⟨flight, before, deletes⟩
  | unowed acted before nothing =>
    cases of_decide_eq_true deletes
    exact .inr ⟨acted, before, nothing⟩
  | discounted before =>
    exact .inl ⟨_, before, deletes⟩
  | delivered asked =>
    cases deletes
  | passed before =>
    cases deletes
  | found before there =>
    cases deletes
  | asked other =>
    cases deletes
  | read other =>
    cases deletes
  | ended asked =>
    cases deletes
  | refunding acted before =>
    cases deletes

namespace Quiet

/-- A deletion that goes on had nothing unpaid to delete before the step. -/
theorem cleared_before
    (quiet : Quiet state)
    (calm : Calm state action)
    {id : Nat}
    {flight : Flight}
    {affiliateId : Uuid}
    (found : (step state action).flights.get? id = some flight)
    (deletes : flight.deletes affiliateId = true) :
    ∀ earning ∈ state.earnings,
      earning.affiliateId = affiliateId → earning.paidAt ≠ none := by
  rcases deletes_step found deletes with ⟨before, was, did⟩ |
    ⟨rfl, owing, nothing⟩
  · exact quiet.cleared id before affiliateId was did
  · intro earning member its unpaid
    obtain ⟨other, otherMember, same, above⟩ :=
      calm (.owing affiliateId) owing ⟨earning, member, its, unpaid⟩
    have below := none_owed
      (fun another there =>
        quiet.ledger.nonneg another (mem_filter.mp there).1)
      nothing (mem_filter.mpr ⟨otherMember, decide_eq_true same.1⟩)
      same.2
    omega

/-- What is recorded is of no affiliate whose deletion goes on. -/
theorem recorded_apart
    {id : Nat}
    (calm : Calm state (.advance id))
    {order : Order}
    {commissionBps : Nat}
    {earning : Earning}
    (is : Recorded state id order commissionBps earning)
    {other : Nat}
    {flight : Flight}
    (found : (Affiliates.step state (.advance id)).flights.get? other =
      some flight) :
    flight.deletes earning.affiliateId = false := by
  refine Bool.eq_false_iff.mpr fun deletes => ?_
  rcases deletes_step found deletes with ⟨before, was, did⟩ |
    ⟨same, owing, _⟩
  · rcases calm _ is.flight with withdrawn | ⟨earning, member, its⟩ | none
    · exact is.notWithdrawn withdrawn
    · exact is.first earning member its
    · have not := none (other, before) (mem_entries.mpr was)
      rw [did] at not
      cases not
  · cases same
    have both := is.flight.symm.trans owing
    cases both

/-- A calm step leaves a deletion that goes on nothing unpaid to delete. -/
theorem cleared_step
    (quiet : Quiet state)
    (calm : Calm state action) :
    ∀ id flight affiliateId,
      (step state action).flights.get? id = some flight →
        flight.deletes affiliateId = true →
          ∀ earning ∈ (step state action).earnings,
            earning.affiliateId = affiliateId → earning.paidAt ≠ none := by
  intro id flight affiliateId found deletes
  have before := quiet.cleared_before calm found deletes
  intro earning member its
  rcases (change_step state action).origin member with
    ⟨was, there, keeps, _⟩ | ⟨_, _, _, acted, is, _⟩
  · exact keeps.paid (before was there (keeps.affiliateId.symm.trans its))
  · subst acted
    have apart := recorded_apart calm is found
    rw [its, deletes] at apart
    cases apart

/-- A calm step keeps what calm steps keep. -/
theorem step
    (quiet : Quiet state)
    (calm : Calm state action) :
    Quiet (step state action) := by
  refine
    { ledger := quiet.ledger.step action
      cleared := quiet.cleared_step calm
      lapsed := ?_
      asked := ?_
      refunded := ?_ }
  · intro id orderId lapsed now found
    cases flown_step found with
    | kept before =>
      exact quiet.lapsed id orderId lapsed now before
    | ended asked =>
      subst asked
      exact calm
  · intro id orderId found
    cases flown_step found with
    | kept before =>
      exact withdrawn_step action (quiet.asked id orderId before)
    | refunding acted before =>
      next lapsed now =>
      have whole := quiet.lapsed id orderId lapsed now before
      subst acted whole
      simp only [Affiliates.step, State.advance, before, if_true]
      exact mem_withdrawEarning state orderId now
  · intro orderId refunded
    rcases refunded_step refunded with before | ⟨id, asked⟩
    · exact withdrawn_step action (quiet.refunded orderId before)
    · exact withdrawn_step action (quiet.asked id orderId asked)

/-- Nothing is in flight at first. -/
theorem empty : Quiet .empty where
  ledger := Ledger.empty
  cleared := nofun
  lapsed := nofun
  asked := nofun
  refunded := nofun

/-- A run of calm steps keeps it. -/
theorem run
    {actions : List Action}
    (each : Runs.Each Affiliates.step Calm .empty actions) :
    Quiet (run actions) :=
  Runs.keeps_of_each Quiet (fun _ _ calm quiet => quiet.step calm) each empty

/-- After calm steps, no step loses an unpaid earning. -/
theorem accounted
    (quiet : Quiet state)
    {earning : Earning}
    (member : earning ∈ state.earnings)
    (unpaid : earning.paidAt = none)
    (action : Action) :
    Accounted (Affiliates.step state action) earning := by
  cases change_step state action with
  | same earnings withdrawn =>
    exact .inr ⟨earning, earnings ▸ member, Keeps.refl earning⟩
  | recorded acted is earnings withdrawn =>
    refine .inr ⟨earning, ?_, Keeps.refl earning⟩
    rw [earnings]
    exact mem_append_left _ member
  | rewritten change keeps earnings withdrawn =>
    refine .inr ⟨change earning, ?_, keeps earning⟩
    rw [earnings]
    exact mem_map_of_mem member
  | withdrawn orderId orders change keeps earnings =>
    by_cases same : earning.orderId = orderId
    · exact .inl ((orders earning.orderId).mpr (.inl same))
    · refine .inr ⟨change earning, ?_, keeps earning⟩
      rw [earnings]
      refine mem_map_of_mem (mem_filter.mpr ⟨member, ?_⟩)
      exact decide_eq_true fun both => same both.1
  | deleted acted flight earnings withdrawn =>
    next id affiliateId =>
    refine .inr ⟨earning, ?_, Keeps.refl earning⟩
    rw [earnings]
    refine mem_filter.mpr ⟨member, decide_eq_true fun its => ?_⟩
    exact quiet.cleared id (.deleting affiliateId) affiliateId flight
      (decide_eq_true rfl) earning member its unpaid

end Quiet

end Calmly

section Overtaken

/-- An order of person 7, who came through affiliate 1. -/
def overtakenOrder : Order where
  id := "order"
  discountId := none
  netAmount := some 1000
  currency := some "usd"
  userId := some 7

/-- Person 7 signs up through affiliate 1. -/
def arriving : List Action :=
  [.enrol 7,
    .affiliate 1 { commissionBps := 2500, providerDiscountId := none },
    .arrive 7 1]

/-- Person 7's order is delivered, and its commission recorded. -/
def delivering (id : Nat) : List Action :=
  [.deliver id overtakenOrder, .advance id, .advance id, .advance id]

/--
A deletion of the affiliate reads that nothing is owed; then an order's
commission is recorded.
-/
def overtaking : List Action :=
  arriving ++ [.remove 1 1, .advance 1, .advance 1] ++ delivering 2

/-- A pooled person's order that an ending refunds whole earns all the same. -/
theorem pooled_refund_earns :
    ∃ earlier later,
      "order" ∈ (run earlier).refundedOrders ∧ (run earlier).earnings = [] ∧
        ∃ earning ∈ (run (earlier ++ later)).earnings,
          earning.orderId = "order" := by
  refine ⟨arriving ++ [.refund 1 "order" false 5, .advance 1, .advance 1],
    delivering 2, ?_⟩
  decide

/-- The affiliate is owed, so its deletion is about to be refused. -/
def owed : List Action :=
  arriving ++ delivering 2 ++ [.remove 1 1, .advance 1]

/-- It is refused; then the order is refunded whole. -/
def refunded : List Action :=
  owed ++ [.advance 1] ++ [.refund 4 "order" true 5, .advance 4, .advance 4]

/-- The order is delivered again, and the affiliate deleted. -/
def again : List Action :=
  delivering 3 ++ [.remove 1 1, .advance 1, .advance 1, .advance 1, .advance 1]

end Overtaken

end Affiliates

end HushOS
