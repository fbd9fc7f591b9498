import EtherTrade.StatusCodes
import EtherTrade.TradeSettlement

/-!
# The tables of the orders database

Rows of `orders`, `idempotency_records` and `outbox_events`, with the columns the orders
service reads or writes. Prices and quantities that come from a column are units of
`10⁻⁸`; the numbers of a request are texts that a column may round or refuse.
-/

namespace EtherTrade.OrdersSchema

open DecimalNumbers KeyedRows AccountsSchema
open TradeSettlement (TradingSymbol)

inductive OrderSide where
  | buy
  | sell
  deriving DecidableEq, Repr

def OrderSide.opposing : OrderSide → OrderSide
  | .buy => .sell
  | .sell => .buy

inductive OrderType where
  | limit
  | market
  deriving DecidableEq, Repr

inductive OrderStatus where
  | pending
  | opened
  | filled
  | partiallyFilled
  | cancelled
  | rejected
  deriving DecidableEq, Repr

namespace OrderStatus

/-- The statuses whose orders `cancel` changes. -/
def cancellable : List OrderStatus := [opened, partiallyFilled]

/-- The statuses an order is meant to keep. -/
def terminal : List OrderStatus := [filled, cancelled]

end OrderStatus

structure Order where
  id : Uuid
  userId : Uuid
  pair : TradingSymbol
  side : OrderSide
  type : OrderType
  price : ℤ
  amount : ℤ
  filledAmount : ℤ
  remainingAmount : ℤ
  status : OrderStatus
  idempotencyKey : String
  deriving DecidableEq, Repr

/-- The order as a response carries it. -/
structure OrderItem where
  orderId : Uuid
  userId : Uuid
  pair : TradingSymbol
  side : OrderSide
  type : OrderType
  price : ℤ
  amount : ℤ
  filledAmount : ℤ
  remainingAmount : ℤ
  status : OrderStatus
  deriving DecidableEq, Repr

def mapOrderToItem (order : Order) : OrderItem where
  orderId := order.id
  userId := order.userId
  pair := order.pair
  side := order.side
  type := order.type
  price := order.price
  amount := order.amount
  filledAmount := order.filledAmount
  remainingAmount := order.remainingAmount
  status := order.status

/-! ### Requests and errors -/

/-- A number in a request: its text and what `BigNumber` reads from it, which is `nan` for a text
that is no number. Texts on which the constructor throws are not represented. -/
structure NumberText where
  text : String
  value : BigNumber
  deriving DecidableEq, Repr

structure CreateOrderRequest where
  userId : Uuid
  pair : TradingSymbol
  side : OrderSide
  type : OrderType
  price : NumberText
  amount : NumberText
  idempotencyKey : String
  deriving DecidableEq, Repr

structure CancelOrderRequest where
  orderId : Uuid
  userId : Uuid
  idempotencyKey : String
  deriving DecidableEq, Repr

structure RpcException where
  code : ℕ
  message : String
  deriving DecidableEq, Repr

namespace OrdersErrors

def orderNotFound (id : Uuid) : String := "Order not found: " ++ id

def orderAlreadyFilled (id : Uuid) : String :=
  "Order " ++ id ++ " is already filled and cannot be cancelled"

def orderAlreadyCancelled (id : Uuid) : String := "Order " ++ id ++ " is already cancelled"

def insufficientBalance (currency : Currency) (required : NumericText) : String :=
  "Insufficient " ++ currency.code ++ " balance to place order, required: " ++ required.chars

def invalidPrice : String := "Order price must be a positive number"

def invalidAmount : String := "Order amount must be a positive number"

def unsupportedPair (pair : TradingSymbol) : String :=
  "Unsupported trading pair: " ++ pair.base.code ++ "_" ++ pair.quote.code

def idempotencyInProgress : String :=
  "Order operation is already in progress, please retry shortly"

def idempotencyPayloadMismatch : String :=
  "Idempotency key reused with different request payload"

end OrdersErrors

def supportedPairs : List TradingSymbol := [⟨.btc, .usdt⟩, ⟨.eth, .usdt⟩]

/-! ### Idempotency records -/

inductive IdempotencyStatus where
  | inProgress
  | completed
  | failed
  deriving DecidableEq, Repr

/-- What a request hash is computed from. It stands for the hash, which distinguishes
payloads as long as no two of them collide. -/
structure RequestPayload where
  userId : Uuid
  pair : TradingSymbol
  side : OrderSide
  type : OrderType
  price : String
  amount : String
  deriving DecidableEq, Repr

def requestHash (request : CreateOrderRequest) : RequestPayload where
  userId := request.userId
  pair := request.pair
  side := request.side
  type := request.type
  price := request.price.text
  amount := request.amount.text

structure IdempotencyRecord where
  id : Uuid
  userId : Uuid
  operation : String
  key : String
  requestHash : RequestPayload
  status : IdempotencyStatus
  responsePayload : Option OrderItem
  expiresAt : ℕ
  deriving DecidableEq, Repr

/-- The columns of `uidx_orders_idempotency_scope`. -/
def IdempotencyRecord.scope (r : IdempotencyRecord) : Uuid × String × String :=
  (r.userId, r.operation, r.key)

/-! ### Outbox events -/

structure OrderPlacedEvent where
  orderId : Uuid
  userId : Uuid
  symbol : TradingSymbol
  side : OrderSide
  type : OrderType
  price : ℤ
  quantity : ℤ
  levelTotalQuantity : ℤ
  sequenceId : ℕ
  deriving DecidableEq, Repr

structure TradeExecutedEvent where
  tradeId : Uuid
  buyOrderId : Uuid
  sellOrderId : Uuid
  buyerUserId : Uuid
  sellerUserId : Uuid
  symbol : TradingSymbol
  price : ℤ
  quantity : ℤ
  buyerLimitPrice : ℤ
  buyerFee : ℤ
  sellerFee : ℤ
  sequenceId : ℕ
  deriving DecidableEq, Repr

structure OrderFilledEvent where
  orderId : Uuid
  userId : Uuid
  symbol : TradingSymbol
  filledPrice : ℤ
  filledQuantity : ℤ
  remainingQuantity : ℤ
  fee : ℤ
  deriving DecidableEq, Repr

structure OrderCancelledEvent where
  orderId : Uuid
  userId : Uuid
  symbol : TradingSymbol
  price : ℤ
  remainingQuantity : ℤ
  levelTotalQuantity : ℤ
  side : OrderSide
  sequenceId : ℕ
  reason : String
  deriving DecidableEq, Repr

inductive OutboxPayload where
  | orderPlaced (payload : OrderPlacedEvent)
  | tradeExecuted (payload : TradeExecutedEvent)
  | orderFilled (payload : OrderFilledEvent)
  | orderCancelled (payload : OrderCancelledEvent)
  deriving DecidableEq, Repr

inductive OutboxAggregateType where
  | order
  | trade
  deriving DecidableEq, Repr

structure OutboxEvent where
  aggregateType : OutboxAggregateType
  aggregateId : Uuid
  partitionKey : TradingSymbol
  eventType : String
  payload : OutboxPayload
  deriving DecidableEq, Repr

/-- The trade an event reports. -/
def OutboxEvent.trade (e : OutboxEvent) : Option TradeExecutedEvent :=
  match e.payload with
  | .tradeExecuted payload => some payload
  | _ => none

/-- A trade names the orders it is between. -/
def TradeExecutedEvent.Names (e : TradeExecutedEvent) (orderId : Uuid) : Prop :=
  e.buyOrderId = orderId ∨ e.sellOrderId = orderId

instance (e : TradeExecutedEvent) (orderId : Uuid) : Decidable (e.Names orderId) :=
  inferInstanceAs (Decidable (_ ∨ _))

/-! ### The database -/

structure OrdersDb where
  orders : List Order
  outboxEvents : List OutboxEvent
  idempotencyRecords : List IdempotencyRecord
  deriving DecidableEq, Repr

namespace OrdersDb

def empty : OrdersDb := ⟨[], [], []⟩

def findById (db : OrdersDb) (orderId : Uuid) : Option Order := lookup Order.id db.orders orderId

def findByIdAndUserId (db : OrdersDb) (orderId userId : Uuid) : Option Order :=
  (db.findById orderId).filter fun order => order.userId = userId

/-- The trades of all committed events, in commit order. -/
def trades (db : OrdersDb) : List TradeExecutedEvent := db.outboxEvents.filterMap OutboxEvent.trade

/-- Commit the rows and events a transaction wrote. -/
def install (db : OrdersDb) (rows : List Order) (events : List OutboxEvent) : OrdersDb :=
  { db with
    orders := merge Order.id db.orders rows
    outboxEvents := db.outboxEvents ++ events }

/-- The record within its validity window. -/
def findRecord (db : OrdersDb) (now : ℕ) (userId : Uuid) (operation key : String) :
    Option IdempotencyRecord :=
  (lookup IdempotencyRecord.scope db.idempotencyRecords (userId, operation, key)).filter
    fun r => now < r.expiresAt

def insertRecord (db : OrdersDb) (r : IdempotencyRecord) : OrdersDb :=
  { db with idempotencyRecords := db.idempotencyRecords ++ [r] }

def setRecord (db : OrdersDb) (recordId : Uuid) (f : IdempotencyRecord → IdempotencyRecord) :
    OrdersDb :=
  { db with
    idempotencyRecords := db.idempotencyRecords.map fun r => if r.id = recordId then f r else r }

def completeRecord (db : OrdersDb) (recordId : Uuid) (responsePayload : OrderItem) : OrdersDb :=
  db.setRecord recordId fun r =>
    { r with status := .completed, responsePayload := some responsePayload }

def failRecord (db : OrdersDb) (recordId : Uuid) : OrdersDb :=
  db.setRecord recordId fun r => { r with status := .failed }

end OrdersDb

end EtherTrade.OrdersSchema
