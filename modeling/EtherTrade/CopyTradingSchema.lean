import EtherTrade.OrdersSchema

/-!
# The tables of the copy trading database

Rows of `master_traders`, `copy_subscriptions`, `copy_orders_history` and `processed_events`,
with the columns that replication and subscriptions read or write. Rows stand in the order of
their insertion, which is that of `createdAt`. A numeric column holds units of its last place,
or no number.
-/

namespace EtherTrade.CopyTradingSchema

open DecimalNumbers KeyedRows AccountsSchema OrdersSchema
open TradeSettlement (TradingSymbol)

/-- A `numeric(28, 8)` column also stores `NaN`, but no infinity. -/
inductive Numeric where
  | nan
  | units (n : ℤ)
  deriving DecidableEq, Repr

def Numeric.toBigNumber : Numeric → BigNumber
  | .nan => .nan
  | .units n => .finite (n / scale)

/-- What the column stores of a number, if it can. -/
def Numeric.ofBigNumber : BigNumber → Option Numeric
  | .nan => some .nan
  | n => n.toColumn.map .units

/-- A row of `master_traders`. -/
structure MasterTrader where
  id : Uuid
  userId : Uuid
  minDeposit : ℤ
  totalCopiers : ℤ
  isActive : Bool
  deriving DecidableEq, Repr

/-- The insert of a master, refused by a unique index that has its key. -/
def createMaster (masters : List MasterTrader) (row : MasterTrader) : Option (List MasterTrader) :=
  if (lookup MasterTrader.id masters row.id).isSome ||
      (lookup MasterTrader.userId masters row.userId).isSome then none
  else some (masters ++ [row])

inductive SubscriptionStatus where
  | active
  | paused
  | terminated
  deriving DecidableEq, Repr

/-- A row of `copy_subscriptions`. The slippage has two decimals. -/
structure CopySubscription where
  id : Uuid
  followerUserId : Uuid
  masterId : Uuid
  allocatedBalance : ℤ
  maxSlippagePercent : ℤ
  status : SubscriptionStatus
  deriving DecidableEq, Repr

/-- The columns of `idx_copy_subscriptions_follower_master`. -/
def CopySubscription.follows (row : CopySubscription) : Uuid × Uuid :=
  (row.followerUserId, row.masterId)

inductive CopyOrderStatus where
  | pending
  | completed
  | failed
  | skipped
  deriving DecidableEq, Repr

/-- What `create` is given. -/
structure NewCopyOrderHistory where
  subscriptionId : Uuid
  masterTradeId : Uuid
  followerOrderId : Option Uuid
  pair : TradingSymbol
  masterSide : OrderSide
  replicatedQuantity : BigNumber
  replicatedPrice : BigNumber
  status : CopyOrderStatus
  failureReason : Option String
  deriving DecidableEq, Repr

/-- A row of `copy_orders_history`. -/
structure CopyOrderHistory where
  id : Uuid
  subscriptionId : Uuid
  masterTradeId : Uuid
  followerOrderId : Option Uuid
  pair : TradingSymbol
  masterSide : OrderSide
  replicatedQuantity : Numeric
  replicatedPrice : Numeric
  status : CopyOrderStatus
  failureReason : Option String
  deriving DecidableEq, Repr

/-- The columns of `idx_copy_orders_history_sub_trade`. -/
def CopyOrderHistory.copy (row : CopyOrderHistory) : Uuid × Uuid :=
  (row.subscriptionId, row.masterTradeId)

/-- The row of a record, if its columns can hold it. -/
def NewCopyOrderHistory.toRow (record : NewCopyOrderHistory) (id : Uuid) :
    Option CopyOrderHistory := do
  let replicatedQuantity ← Numeric.ofBigNumber record.replicatedQuantity
  let replicatedPrice ← Numeric.ofBigNumber record.replicatedPrice
  return {
    id
    subscriptionId := record.subscriptionId
    masterTradeId := record.masterTradeId
    followerOrderId := record.followerOrderId
    pair := record.pair
    masterSide := record.masterSide
    replicatedQuantity
    replicatedPrice
    status := record.status
    failureReason := record.failureReason }

structure ProcessedEvent where
  eventId : Uuid
  eventType : String
  consumerGroup : String
  deriving DecidableEq, Repr

structure CopyTradingDb where
  copySubscriptions : List CopySubscription
  copyOrdersHistory : List CopyOrderHistory
  processedEvents : List ProcessedEvent
  deriving DecidableEq, Repr

namespace CopyTradingDb

def empty : CopyTradingDb := ⟨[], [], []⟩

variable (db : CopyTradingDb)

/-! ### Subscriptions -/

def findActiveByMaster (masterId : Uuid) : List CopySubscription :=
  db.copySubscriptions.filter fun row => row.masterId = masterId ∧ row.status = .active

/-- The insert of a subscription, refused by a unique index that has its key. -/
def createSubscription (row : CopySubscription) : Option CopyTradingDb :=
  if (lookup CopySubscription.id db.copySubscriptions row.id).isSome ||
      (lookup CopySubscription.follows db.copySubscriptions row.follows).isSome then none
  else some { db with copySubscriptions := db.copySubscriptions ++ [row] }

def setSubscription (id : Uuid) (f : CopySubscription → CopySubscription) : CopyTradingDb :=
  { db with
    copySubscriptions := db.copySubscriptions.map fun row => if row.id = id then f row else row }

def reactivateSubscription (id : Uuid) (allocatedBalance maxSlippagePercent : ℤ) : CopyTradingDb :=
  db.setSubscription id fun row =>
    { row with status := .active, allocatedBalance, maxSlippagePercent }

def updateStatus (id : Uuid) (status : SubscriptionStatus) : CopyTradingDb :=
  db.setSubscription id fun row => { row with status }

/-- `coalesce(sum(replicated_quantity), 0)` over the completed rows of one side. -/
def totalQuantity (subscriptionId : Uuid) (pair : TradingSymbol) (side : OrderSide) : BigNumber :=
  ((db.copyOrdersHistory.filter fun row => row.subscriptionId = subscriptionId ∧
    row.pair = pair ∧ row.status = .completed ∧ row.masterSide = side).map fun row =>
      row.replicatedQuantity.toBigNumber).foldl BigNumber.plus (.finite 0)

/-- What was bought and what was sold. -/
def getSubscriptionPosition (subscriptionId : Uuid) (pair : TradingSymbol) :
    BigNumber × BigNumber :=
  (db.totalQuantity subscriptionId pair .buy, db.totalQuantity subscriptionId pair .sell)

/-! ### History and processed events -/

/-- The insert of a history row under a generated id, `onConflictDoNothing` on any unique
index: a table that has the id or the copy is left alone. -/
def createHistory (record : NewCopyOrderHistory) (newId : Uuid) : Option CopyTradingDb :=
  (record.toRow newId).map fun row =>
    if (lookup CopyOrderHistory.id db.copyOrdersHistory newId).isSome ||
        (lookup CopyOrderHistory.copy db.copyOrdersHistory row.copy).isSome then db
    else { db with copyOrdersHistory := db.copyOrdersHistory ++ [row] }

def isProcessed (eventId : Uuid) : Bool :=
  (lookup ProcessedEvent.eventId db.processedEvents eventId).isSome

def markProcessed (event : ProcessedEvent) : CopyTradingDb :=
  if db.isProcessed event.eventId then db
  else { db with processedEvents := db.processedEvents ++ [event] }

end CopyTradingDb

end EtherTrade.CopyTradingSchema
