import HushOS.Toolkit.Runs
import HushOS.Toolkit.Tables
import Mathlib.Data.List.Dedup

namespace HushOS

open Toolkit

namespace Affiliates

/-!
# Affiliate earnings

The ledger of commissions: one row per paid order, recorded by whichever
delivery of the order comes first, taken back when the order is refunded whole,
marked when it is paid out.  A plan's ending refunds orders whole too, and takes
the commission back first where the plan lapsed.

A transaction is one step: two that write one order's earning take the order's
lock, a payout is one statement, and an earning's insert and its affiliate's
delete conflict on the affiliate's row.  What runs outside a transaction goes
one read or one transaction a step: a delivery, which looks an affiliate up
before it records, the deletion of an affiliate, and an ending's refund.
-/

/-- A uuid. -/
abbrev Uuid := Nat

def INTEGER_MAX : Int := 2147483647

/-- A row of `affiliates`. -/
structure Affiliate where
  commissionBps : Nat
  providerDiscountId : Option String
  deriving DecidableEq

/-- A row of `affiliate_earnings`. -/
structure Earning where
  affiliateId : Uuid
  orderId : String
  userId : Option Uuid
  currency : String
  netAmount : Int
  commissionAmount : Int
  paidAt : Option Nat
  orderRefundedAt : Option Nat
  deriving DecidableEq

/-- What an `order.paid` delivery says of its order. -/
structure Order where
  id : String
  discountId : Option String
  netAmount : Option Int
  currency : Option String
  /-- The customer, where it is an account's id. -/
  userId : Option Uuid
  deriving DecidableEq

/-- A text that is there and not empty. -/
def truthy (text : Option String) : Option String :=
  text.filter fun value => value ≠ ""

/-- What runs outside a transaction, before its next read or transaction. -/
inductive Flight where
  /-- `recordAffiliateEarning`: the affiliate whose discount the order used. -/
  | byDiscount (order : Order)
  /-- `recordAffiliateEarning`: the one the customer signed up through. -/
  | byCustomer (order : Order)
  /-- `recordEarning`, at the rate the affiliate was read with. -/
  | recording (order : Order) (affiliateId : Uuid) (commissionBps : Nat)
  /-- `deleteAffiliate`: the affiliate. -/
  | reading (affiliateId : Uuid)
  /-- `deleteAffiliate`: what it is owed. -/
  | owing (affiliateId : Uuid)
  /-- `deleteAffiliate`: its discount at the provider. -/
  | discounting (affiliateId : Uuid)
  /-- `deleteAffiliate`: its row. -/
  | deleting (affiliateId : Uuid)
  /-- `refundOrder`, of a lapsed plan's ending or of a pooled person's. -/
  | ending (orderId : String) (lapsed : Bool) (now : Nat)
  /-- `refundOrder`: what the provider is asked for, the whole order. -/
  | refunding (orderId : String)
  deriving DecidableEq

/-- What is committed, and what is in flight. -/
structure State where
  users : List Uuid
  affiliates : OrderedMap Uuid Affiliate
  /-- The affiliate each person signed up through. -/
  referrals : OrderedMap Uuid Uuid
  earnings : List Earning
  withdrawnOrders : List String
  /-- The orders the provider refunded whole, as HushOS asked. -/
  refundedOrders : List String
  flights : OrderedMap Nat Flight

/-- Nobody has signed up yet. -/
def State.empty : State where
  users := []
  affiliates := .empty
  referrals := .empty
  earnings := []
  withdrawnOrders := []
  refundedOrders := []
  flights := .empty

/-- What an affiliate has earned in a currency. -/
structure Totals where
  unpaid : Int
  paid : Int
  deriving DecidableEq

/-- A group of an affiliate's earnings: a currency, and whether they are paid. -/
def Earning.group (earning : Earning) : String × Bool :=
  (earning.currency, earning.paidAt.isSome)

/-- The groups of some earnings, each with the sum of its commissions. -/
def grouped (earnings : List Earning) : List ((String × Bool) × Int) :=
  (earnings.map Earning.group).dedup.map fun key =>
    (key, ((earnings.filter fun earning =>
      earning.group = key).map Earning.commissionAmount).sum)

/-- A group added to the totals. -/
def addGroup
    (totals : OrderedMap String Totals)
    (row : (String × Bool) × Int) : OrderedMap String Totals :=
  let current := (totals.get? row.1.1).getD { unpaid := 0, paid := 0 }
  totals.set row.1.1
    (if row.1.2 then
      { current with paid := current.paid + row.2 }
    else
      { current with unpaid := current.unpaid + row.2 })

/-- An affiliate's earnings. -/
def earningsOf (earnings : List Earning) (affiliateId : Uuid) :
    List Earning :=
  earnings.filter fun earning => earning.affiliateId = affiliateId

/-- What some earnings come to, by currency. -/
def earningTotals (earnings : List Earning) : OrderedMap String Totals :=
  (grouped earnings).foldl addGroup .empty

namespace State

/-- What is in flight moves on. -/
def put (state : State) (id : Nat) (flight : Flight) : State :=
  { state with flights := state.flights.set id flight }

/-- What is in flight ends. -/
def finish (state : State) (id : Nat) : State :=
  { state with flights := state.flights.erase id }

/-- The affiliate whose discount this is. -/
def findAffiliateByDiscount
    (state : State)
    (discountId : String) : Option (Uuid × Affiliate) :=
  state.affiliates.entries.find? fun entry =>
    entry.2.providerDiscountId = some discountId

/-- The affiliate a paying customer arrived through, if any. -/
def findAffiliateForCustomer
    (state : State)
    (userId : Uuid) : Option (Uuid × Affiliate) :=
  (state.referrals.get? userId).bind fun affiliateId =>
    (state.affiliates.get? affiliateId).map fun row => (affiliateId, row)

/-- The commission on an order, rounded down. -/
def commissionOf (netAmount : Int) (commissionBps : Nat) : Int :=
  netAmount * commissionBps / 10000

/-- Commission on one paid order. -/
def recordEarning
    (state : State)
    (orderId : String)
    (userId : Option Uuid)
    (currency : String)
    (netAmount : Int)
    (affiliateId : Uuid)
    (commissionBps : Nat) : State :=
  if netAmount ≤ 0 then
    state
  else if orderId ∈ state.withdrawnOrders then
    state
  else if state.earnings.any fun earning => earning.orderId = orderId then
    state
  else if !state.affiliates.has affiliateId || INTEGER_MAX < netAmount then
    -- The insert fails, and the delivery with it.
    state
  else
    { state with
      earnings := state.earnings ++
        [{ affiliateId := affiliateId
           orderId := orderId
           -- A customer deleted since is named by nobody.
           userId := userId.filter fun id => id ∈ state.users
           currency := currency
           netAmount := netAmount
           commissionAmount := commissionOf netAmount commissionBps
           paidAt := none
           orderRefundedAt := none }] }

/-- An order refunded whole: its commission is taken back while it is unpaid. -/
def withdrawEarning (state : State) (orderId : String) (now : Nat) : State :=
  let unpaid := fun earning : Earning =>
    earning.orderId = orderId ∧ earning.paidAt = none
  let withdrawnOrders :=
    if orderId ∈ state.withdrawnOrders then
      state.withdrawnOrders
    else
      orderId :: state.withdrawnOrders
  if state.earnings.any fun earning => unpaid earning then
    { state with
      withdrawnOrders := withdrawnOrders
      earnings := state.earnings.filter fun earning => ¬ unpaid earning }
  else
    { state with
      withdrawnOrders := withdrawnOrders
      earnings := state.earnings.map fun earning =>
        if earning.orderId = orderId ∧ earning.orderRefundedAt = none then
          { earning with orderRefundedAt := some now }
        else
          earning }

/-- An operator has paid the affiliate everything owed so far. -/
def markEarningsPaid
    (state : State)
    (affiliateId : Uuid)
    (now : Nat) : State :=
  { state with
    earnings := state.earnings.map fun earning =>
      if earning.affiliateId = affiliateId ∧ earning.paidAt = none then
        { earning with paidAt := some now }
      else
        earning }

/-- The provider has refunded an order whole. -/
def refunded (state : State) (orderId : String) : State :=
  { state with refundedOrders := orderId :: state.refundedOrders }

/-- The affiliate's row goes, and with it what pointed at it. -/
def deleteAffiliate (state : State) (affiliateId : Uuid) : State :=
  { state with
    referrals := state.referrals.retain fun _ through =>
      through ≠ affiliateId
    affiliates := state.affiliates.erase affiliateId
    earnings := state.earnings.filter fun earning =>
      earning.affiliateId ≠ affiliateId }

/-- An account goes; its orders' earnings stay, with nobody named. -/
def deleteUser (state : State) (userId : Uuid) : State :=
  { state with
    users := state.users.filter (· ≠ userId)
    referrals := state.referrals.erase userId
    earnings := state.earnings.map fun earning =>
      if earning.userId = some userId then
        { earning with userId := none }
      else
        earning }

/-- A delivery that found its affiliate goes on to record, if it can. -/
def foundAffiliate
    (state : State)
    (id : Nat)
    (order : Order)
    (affiliateId : Uuid)
    (row : Affiliate) : State :=
  match order.netAmount, truthy order.currency with
  | some _, some _ =>
    state.put id (.recording order affiliateId row.commissionBps)
  | _, _ => state.finish id

/-- The next read or transaction of what is in flight. -/
def advance (state : State) (id : Nat) : State :=
  match state.flights.get? id with
  | none => state
  | some (.byDiscount order) =>
    match (truthy order.discountId).bind state.findAffiliateByDiscount with
    | some (affiliateId, row) =>
      state.foundAffiliate id order affiliateId row
    | none => state.put id (.byCustomer order)
  | some (.byCustomer order) =>
    match order.userId.bind state.findAffiliateForCustomer with
    | some (affiliateId, row) =>
      state.foundAffiliate id order affiliateId row
    | none => state.finish id
  | some (.recording order affiliateId commissionBps) =>
    match order.netAmount, order.currency with
    | some netAmount, some currency =>
      (state.recordEarning order.id order.userId currency netAmount
        affiliateId commissionBps).finish id
    | _, _ => state.finish id
  | some (.reading affiliateId) =>
    if state.affiliates.has affiliateId then
      state.put id (.owing affiliateId)
    else
      state.finish id
  | some (.owing affiliateId) =>
    if (earningTotals (earningsOf state.earnings affiliateId)).values.any
        fun total => 0 < total.unpaid then
      -- This affiliate is still owed commission.
      state.finish id
    else
      state.put id (.discounting affiliateId)
  | some (.discounting affiliateId) => state.put id (.deleting affiliateId)
  | some (.deleting affiliateId) =>
    (state.deleteAffiliate affiliateId).finish id
  | some (.ending orderId lapsed now) =>
    -- Only a lapsed plan's order loses its commission.
    (if lapsed then state.withdrawEarning orderId now else state).put id
      (.refunding orderId)
  | some (.refunding orderId) => (state.refunded orderId).finish id

end State

/-- What happens next. -/
inductive Action where
  /-- An account is made. -/
  | enrol (userId : Uuid)
  /-- An account is deleted. -/
  | leave (userId : Uuid)
  /-- An affiliate is enrolled, or their terms are changed. -/
  | affiliate (affiliateId : Uuid) (row : Affiliate)
  /-- An account arrived through an affiliate. -/
  | arrive (userId affiliateId : Uuid)
  /-- An order's payment is delivered, or granted late. -/
  | deliver (id : Nat) (order : Order)
  /-- An operator asks for an affiliate's deletion. -/
  | remove (id : Nat) (affiliateId : Uuid)
  /-- What is in flight takes its next step. -/
  | advance (id : Nat)
  /-- What is in flight fails midway. -/
  | fail (id : Nat)
  /-- An order noted to be refunded whole has its commission taken back. -/
  | withdraw (orderId : String) (now : Nat)
  /-- An ending comes to an order it is to refund whole. -/
  | refund (id : Nat) (orderId : String) (lapsed : Bool) (now : Nat)
  /-- An affiliate is paid what it is owed. -/
  | pay (affiliateId : Uuid) (now : Nat)
  deriving DecidableEq

/-- The state after what happens next. -/
def step (state : State) : Action → State
  | .enrol userId =>
    if userId ∈ state.users then
      state
    else
      { state with users := userId :: state.users }
  | .leave userId => state.deleteUser userId
  | .affiliate affiliateId row =>
    if row.commissionBps ≤ 10000 then
      { state with affiliates := state.affiliates.set affiliateId row }
    else
      state
  | .arrive userId affiliateId =>
    if userId ∈ state.users && state.affiliates.has affiliateId &&
        !state.referrals.has userId then
      { state with referrals := state.referrals.set userId affiliateId }
    else
      state
  | .deliver id order =>
    if state.flights.has id then state
    else state.put id (.byDiscount order)
  | .remove id affiliateId =>
    if state.flights.has id then state
    else state.put id (.reading affiliateId)
  | .advance id => state.advance id
  | .fail id => state.finish id
  | .withdraw orderId now => state.withdrawEarning orderId now
  | .refund id orderId lapsed now =>
    if state.flights.has id then state
    else state.put id (.ending orderId lapsed now)
  | .pay affiliateId now => state.markEarningsPaid affiliateId now

/-- The state after a run. -/
def run (actions : List Action) : State :=
  Runs.run step .empty actions

end Affiliates

end HushOS
