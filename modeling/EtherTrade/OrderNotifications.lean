import EtherTrade.BridgedOutbox
import EtherTrade.DomainEventEnvelopes
import EtherTrade.OrderBookStream
import EtherTrade.OrderEventOrderLaws

/-!
# Notifications of orders

The updates of orders that the bridge of the gateway makes of the events of the orders service,
and the orders service with its relay and the bridge as one system of interleaved processes.
-/

namespace EtherTrade.OrderNotifications

open DecimalNumbers AccountsSchema JsonValues OrdersSchema OrdersTransactions
open InterleavedProcesses DomainEventEnvelopes KafkaToWebSocketBridge
open TradeSettlement (TradingSymbol)

/-! ### Updates -/

/-- A quantity in a message: the literal `'0'`, or the text of a column or of `toFixed`. -/
inductive Quantity where
  | zero
  | text (units : ℤ)
  deriving DecidableEq, Repr

namespace Quantity

def units : Quantity → ℤ
  | zero => 0
  | text units => units

def json : Quantity → Json
  | zero => .string "0"
  | text units => .string (columnText units)

end Quantity

structure WsUserOrderUpdateMessage where
  orderId : Uuid
  symbol : TradingSymbol
  side : Option OrderSide
  status : OrderStatus
  filledQuantity : Quantity
  remainingQuantity : Quantity
  deriving DecidableEq, Repr

/-- A message and the user to whose room it goes. -/
structure OrderUpdate where
  userId : Uuid
  message : WsUserOrderUpdateMessage
  deriving DecidableEq, Repr

def handleTradeExecuted (event : TradeExecutedEvent) : List OrderUpdate :=
  [⟨event.buyerUserId, ⟨event.buyOrderId, event.symbol, some .buy, .partiallyFilled,
      .text event.quantity, .zero⟩⟩,
    ⟨event.sellerUserId, ⟨event.sellOrderId, event.symbol, some .sell, .partiallyFilled,
      .text event.quantity, .zero⟩⟩]

def handleOrderPlaced (event : OrderPlacedEvent) : List OrderUpdate :=
  [⟨event.userId, ⟨event.orderId, event.symbol, some event.side, .opened, .zero,
    .text event.quantity⟩⟩]

def handleOrderCancelled (event : OrderCancelledEvent) : List OrderUpdate :=
  [⟨event.userId, ⟨event.orderId, event.symbol, some event.side, .cancelled, .zero,
    .text event.remainingQuantity⟩⟩]

def handleOrderFilled (event : OrderFilledEvent) : List OrderUpdate :=
  [⟨event.userId, ⟨event.orderId, event.symbol, none, .filled, .text event.filledQuantity,
    .text event.remainingQuantity⟩⟩]

/-- What the bridge publishes to the rooms of users for an event, in this order. -/
def orderUpdates : OutboxPayload → List OrderUpdate
  | .tradeExecuted event => handleTradeExecuted event
  | .orderPlaced event => handleOrderPlaced event
  | .orderCancelled event => handleOrderCancelled event
  | .orderFilled event => handleOrderFilled event

/-! ### Texts -/

def symbolText (symbol : TradingSymbol) : String := symbol.base.code ++ "_" ++ symbol.quote.code

def sideText : OrderSide → String
  | .buy => "BUY"
  | .sell => "SELL"

def typeText : OrdersSchema.OrderType → String
  | .limit => "LIMIT"
  | .market => "MARKET"

def statusText : OrderStatus → String
  | .pending => "PENDING"
  | .opened => "OPEN"
  | .filled => "FILLED"
  | .partiallyFilled => "PARTIALLY_FILLED"
  | .cancelled => "CANCELLED"
  | .rejected => "REJECTED"

def unitsText (units : ℤ) : Json := .string (columnText units)

/-- The update as the bridge publishes it. -/
def OrderUpdate.pubSubMsg (context : Context) (update : OrderUpdate) : PubSubMsg where
  channel := getUserPrivateRoom update.userId .orders
  message := objectOf [("channel", some (.string WsChannels.userOrders)),
    ("orderId", some (.string update.message.orderId)),
    ("symbol", some (.string (symbolText update.message.symbol))),
    ("side", update.message.side.map fun side => .string (sideText side)),
    ("status", some (.string (statusText update.message.status))),
    ("filledQuantity", some update.message.filledQuantity.json),
    ("remainingQuantity", some update.message.remainingQuantity.json),
    ("timestamp", some (timestampOf context)), ("traceId", context.traceId.map .string)]

/-- A level update as the bridge publishes it. -/
def deltaMsg (context : Context) (delta : OrderBookStream.WsOrderBookUpdateMessage) :
    PubSubMsg where
  channel := "orderbook:" ++ symbolText delta.symbol
  message := objectOf [("channel", some (.string ("orderbook:" ++ symbolText delta.symbol))),
    ("type", some (.string "delta")), ("sequenceId", some (.number (.finite delta.sequenceId))),
    ("side", some (.string (sideText delta.side))), ("price", some (unitsText delta.price)),
    ("quantity", some (unitsText delta.quantity)), ("timestamp", some (timestampOf context))]

/-- A trade as the bridge publishes it to everybody. -/
def tradeMsg (context : Context) (event : TradeExecutedEvent) : PubSubMsg where
  channel := "trades:" ++ symbolText event.symbol
  message := objectOf [("channel", some (.string ("trades:" ++ symbolText event.symbol))),
    ("tradeId", some (.string event.tradeId)),
    ("symbol", some (.string (symbolText event.symbol))), ("price", some (unitsText event.price)),
    ("quantity", some (unitsText event.quantity)), ("timestamp", some (timestampOf context)),
    ("traceId", context.traceId.map .string)]

/-- What the bridge publishes to the channels of a pair. -/
def pairMessages (context : Context) : OutboxPayload → List PubSubMsg
  | .tradeExecuted event => [tradeMsg context event]
  | payload => ((OrderBookStream.handleMessage payload).map (deltaMsg context)).toList

/-- The payloads as they are stored. Level totals are written like columns; only the public
channels carry them. -/
def payloadFields : OutboxPayload → List (String × Json)
  | .orderPlaced event => [("orderId", .string event.orderId), ("userId", .string event.userId),
      ("symbol", .string (symbolText event.symbol)), ("side", .string (sideText event.side)),
      ("type", .string (typeText event.type)), ("price", unitsText event.price),
      ("quantity", unitsText event.quantity),
      ("levelTotalQuantity", unitsText event.levelTotalQuantity),
      ("sequenceId", .number (.finite event.sequenceId))]
  | .tradeExecuted event => [("tradeId", .string event.tradeId),
      ("buyOrderId", .string event.buyOrderId), ("sellOrderId", .string event.sellOrderId),
      ("buyerUserId", .string event.buyerUserId), ("sellerUserId", .string event.sellerUserId),
      ("symbol", .string (symbolText event.symbol)), ("price", unitsText event.price),
      ("quantity", unitsText event.quantity),
      ("buyerLimitPrice", unitsText event.buyerLimitPrice), ("buyerFee", .string "0"),
      ("sellerFee", .string "0"), ("sequenceId", .number (.finite event.sequenceId))]
  | .orderFilled event => [("orderId", .string event.orderId), ("userId", .string event.userId),
      ("symbol", .string (symbolText event.symbol)), ("filledPrice", unitsText event.filledPrice),
      ("filledQuantity", unitsText event.filledQuantity),
      ("remainingQuantity", unitsText event.remainingQuantity), ("fee", .string "0")]
  | .orderCancelled event => [("orderId", .string event.orderId),
      ("userId", .string event.userId), ("symbol", .string (symbolText event.symbol)),
      ("price", unitsText event.price), ("remainingQuantity", unitsText event.remainingQuantity),
      ("levelTotalQuantity", unitsText event.levelTotalQuantity),
      ("side", .string (sideText event.side)), ("sequenceId", .number (.finite event.sequenceId)),
      ("reason", .string event.reason)]

/-- The action and the type of an event. -/
def eventNames : OutboxPayload → String × String
  | .orderPlaced _ => ("ORDER_PLACED", "order.placed")
  | .tradeExecuted _ => ("TRADE_EXECUTED", "matching.trade_executed")
  | .orderFilled _ => ("ORDER_FILLED", "order.filled")
  | .orderCancelled _ => ("ORDER_CANCELLED", "order.cancelled")

def domainEvent (event : OutboxEvent) : DomainEvent where
  aggregateId := event.aggregateId
  partitionKey := symbolText event.partitionKey
  action := (eventNames event.payload).1
  eventType := (eventNames event.payload).2
  payload timestamp := .object (payloadFields event.payload ++ [("timestamp", timestamp)])

def originOf (event : OutboxEvent) : Origin :=
  match event.aggregateType with
  | .order => ⟨"orders", "orders-service"⟩
  | .trade => ⟨"matching", "orders-service"⟩

/-- All that the bridge publishes for an event: its trade or its level update, and the updates of
its orders. -/
theorem bridgeMessages_eq (appEnv : String) (context : Context) (id : Uuid) (event : OutboxEvent)
    (numberText : JsonNumber → String) :
    bridgeMessages appEnv (originOf event) context id (domainEvent event) numberText =
      pairMessages context event.payload ++
        (orderUpdates event.payload).map (OrderUpdate.pubSubMsg context) := by
  obtain ⟨aggregateType, aggregateId, partitionKey, eventType, payload⟩ := event
  cases payload <;> rfl

/-! ### The system -/

theorem outboxEvents_grow (p : ℕ) (s : Shared) (l : Process) (action : Action) (s' : Shared)
    (l' : Process) (h : ordersSystem.step p s l action = some (s', l')) :
    s.store.db.outboxEvents <+: s'.store.db.outboxEvents := by
  rcases OrderEventOrderLaws.outboxEvents_step h with hsame | hgrown
  · rw [hsame]
  · exact ⟨_, hgrown.symm⟩

def ordersService : BridgedOutbox.Service Shared Process Action OutboxEvent Unit OrderUpdate where
  system := ordersSystem
  committed s := s.store.db.outboxEvents
  grows := outboxEvents_grow
  messages _ row := orderUpdates row.event.payload

abbrev NotifyingConfig := BridgedOutbox.BridgedConfig Shared Process OutboxEvent OrderUpdate

abbrev NotifyingAction := BridgedOutbox.Action Action OutboxEvent Unit

abbrev NotifyingTransition :=
  System.Transition (BridgedOutbox.Shared Shared OutboxEvent OrderUpdate)
    (BridgedOutbox.Process Process OutboxEvent) NotifyingAction

def notifyingSystem : System (BridgedOutbox.Shared Shared OutboxEvent OrderUpdate)
    (BridgedOutbox.Process Process OutboxEvent) NotifyingAction :=
  BridgedOutbox.bridgedSystem ordersService

/-- Empty stores and nothing under way. -/
def initial : NotifyingConfig := BridgedOutbox.initial OrdersTransactions.initial

end EtherTrade.OrderNotifications
