import EtherTrade.RoomManagerService
import EtherTrade.TradesSettlementConsumer

/-!
# The bridge from Kafka to WebSocket channels

What the bridge publishes for a message, whatever the message holds, and the grammar of the
channels that clients may ask for. A message stands for the text that `JSON.stringify` makes
of it.
-/

namespace EtherTrade.KafkaToWebSocketBridge

open JsonValues KafkaConsumer RoomManagerService
open TradesSettlementConsumer (messageAction)

/-! ### Channels -/

namespace WsChannels

def userOrders : String := "user:orders"

def userTransfers : String := "user:transfers"

end WsChannels

/-- `/^[A-Z0-9]+$/` -/
def isWord (text : List Char) : Bool :=
  text ≠ [] && text.all fun c => c.isUpper || c.isDigit

/-- `/^[A-Z0-9]+_[A-Z0-9]+$/` -/
def isSymbol (text : List Char) : Bool :=
  match text.splitOn '_' with
  | [base, quote] => isWord base && isWord quote
  | _ => false

def isValidChannel (channel : String) : Bool :=
  if channel = "" then false
  else if channel = WsChannels.userOrders || channel = WsChannels.userTransfers then true
  else
    match channel.toList.splitOn ':' with
    | [channelPrefix, symbol] =>
      (channelPrefix = "orderbook".toList || channelPrefix = "trades".toList) && isSymbol symbol
    | _ => false

/-- The channels of one user. -/
inductive SubTopic where
  | orders
  | transfers
  deriving DecidableEq, Repr

namespace SubTopic

def name : SubTopic → String
  | orders => "orders"
  | transfers => "transfers"

def channel : SubTopic → String
  | orders => WsChannels.userOrders
  | transfers => WsChannels.userTransfers

end SubTopic

def getUserPrivateRoom (userId : String) (subTopic : SubTopic) : String :=
  RoomManager.getUserPrivateRoom userId subTopic.name

/-! ### Messages -/

/-- A message and the channel that it is published to. -/
structure PubSubMsg where
  channel : String
  message : Json

/-- An object literal. Properties without a value are left out of its text. -/
def objectOf (fields : List (String × Option Json)) : Json :=
  .object (fields.filterMap fun field => field.2.map fun value => (field.1, value))

section Bridge

variable (numberText : JsonNumber → String) (traceId : Option String) (event : Json)

/-- The text of a value in a template, which fails for some objects. -/
def templateText : Option Json → Option String
  | none => some "undefined"
  | some value => value.toText numberText

/-- What is published to a channel that ends in a value of the event. -/
def publicMessage (channelPrefix : String) (fields : String → List (String × Option Json)) :
    Option PubSubMsg :=
  (templateText numberText (event.get "symbol")).map fun symbol =>
    ⟨channelPrefix ++ symbol, objectOf (fields (channelPrefix ++ symbol))⟩

/-- What is published to a user that the event names. -/
def privateMessage (userId : String) (subTopic : SubTopic) (fields : List (String × Option Json)) :
    Option PubSubMsg :=
  (templateText numberText (event.get userId)).map fun user =>
    ⟨getUserPrivateRoom user subTopic,
      objectOf (("channel", some (.string subTopic.channel)) :: fields ++
        [("traceId", traceId.map .string)])⟩

/-- The notification of one side of a trade. -/
def tradeNotification (userId orderId side : String) : Option PubSubMsg :=
  privateMessage numberText traceId event userId .orders
    [("orderId", event.get orderId), ("symbol", event.get "symbol"),
      ("side", some (.string side)), ("status", some (.string "PARTIALLY_FILLED")),
      ("filledQuantity", event.get "quantity"), ("remainingQuantity", some (.string "0")),
      ("timestamp", event.get "timestamp")]

/-- What is published for an executed trade, one after the other. Where a text fails, so does
the bridge. -/
def handleTradeExecuted : List (Option PubSubMsg) :=
  [publicMessage numberText event "trades:" fun channel =>
      [("channel", some (.string channel)), ("tradeId", event.get "tradeId"),
        ("symbol", event.get "symbol"), ("price", event.get "price"),
        ("quantity", event.get "quantity"), ("timestamp", event.get "timestamp"),
        ("traceId", traceId.map .string)],
    tradeNotification numberText traceId event "buyerUserId" "buyOrderId" "BUY",
    tradeNotification numberText traceId event "sellerUserId" "sellOrderId" "SELL"]

/-- The delta of one level of the order book. -/
def levelDelta : Option PubSubMsg :=
  publicMessage numberText event "orderbook:" fun channel =>
    [("channel", some (.string channel)), ("type", some (.string "delta")),
      ("sequenceId", event.get "sequenceId"), ("side", event.get "side"),
      ("price", event.get "price"), ("quantity", event.get "levelTotalQuantity"),
      ("timestamp", event.get "timestamp")]

def handleOrderPlaced : List (Option PubSubMsg) :=
  [levelDelta numberText event,
    privateMessage numberText traceId event "userId" .orders
      [("orderId", event.get "orderId"), ("symbol", event.get "symbol"),
        ("side", event.get "side"), ("status", some (.string "OPEN")),
        ("filledQuantity", some (.string "0")), ("remainingQuantity", event.get "quantity"),
        ("timestamp", event.get "timestamp")]]

def handleOrderCancelled : List (Option PubSubMsg) :=
  [levelDelta numberText event,
    privateMessage numberText traceId event "userId" .orders
      [("orderId", event.get "orderId"), ("symbol", event.get "symbol"),
        ("side", event.get "side"), ("status", some (.string "CANCELLED")),
        ("filledQuantity", some (.string "0")),
        ("remainingQuantity", event.get "remainingQuantity"),
        ("timestamp", event.get "timestamp")]]

def handleOrderFilled : List (Option PubSubMsg) :=
  [privateMessage numberText traceId event "userId" .orders
    [("orderId", event.get "orderId"), ("symbol", event.get "symbol"),
      ("status", some (.string "FILLED")), ("filledQuantity", event.get "filledQuantity"),
      ("remainingQuantity", event.get "remainingQuantity"),
      ("timestamp", event.get "timestamp")]]

/-- The notification of a transfer. -/
def transferNotification (transferId type status : String) : Option PubSubMsg :=
  privateMessage numberText traceId event "userId" .transfers
    [("transferId", event.get transferId), ("type", some (.string type)),
      ("currency", event.get "currency"), ("amount", event.get "amount"),
      ("status", some (.string status)), ("txHash", event.get "txHash"),
      ("timestamp", event.get "timestamp")]

def handleDepositConfirmed : List (Option PubSubMsg) :=
  [transferNotification numberText traceId event "depositId" "deposit" "CREDITED"]

def handleWithdrawalCompleted : List (Option PubSubMsg) :=
  [transferNotification numberText traceId event "withdrawalId" "withdrawal" "COMPLETED"]

def handleWithdrawalFailed : List (Option PubSubMsg) :=
  [transferNotification numberText traceId event "withdrawalId" "withdrawal" "FAILED"]

end Bridge

/-- What the bridge publishes for a message, in this order. -/
def handleMessage (numberText : JsonNumber → String) (traceId : Option String)
    (payload : KafkaBatchConsumerPayload) : List (Option PubSubMsg) :=
  let envelope := payload.value
  let event := (envelope.get "payload").getD .null
  let isKind (action eventType : String) :=
    strictlyEqual (messageAction payload) (some (.string action)) ||
      strictlyEqual (envelope.get "eventType") (some (.string eventType))
  if !envelope.truthy || !truthy (envelope.get "payload") then []
  else if isKind "TRADE_EXECUTED" "matching.trade_executed" then
    handleTradeExecuted numberText traceId event
  else if isKind "ORDER_PLACED" "order.placed" then handleOrderPlaced numberText traceId event
  else if isKind "ORDER_CANCELLED" "order.cancelled" then
    handleOrderCancelled numberText traceId event
  else if isKind "ORDER_FILLED" "order.filled" then handleOrderFilled numberText traceId event
  else if isKind "DEPOSIT_CONFIRMED" "transfers.deposit_confirmed" then
    handleDepositConfirmed numberText traceId event
  else if isKind "WITHDRAWAL_COMPLETED" "transfers.withdrawal_completed" then
    handleWithdrawalCompleted numberText traceId event
  else if isKind "WITHDRAWAL_FAILED" "transfers.withdrawal_failed" then
    handleWithdrawalFailed numberText traceId event
  else []

end EtherTrade.KafkaToWebSocketBridge
