import EtherTrade.OrderBook

/-!
# The unit of work of an order

The local state of the transaction that places and matches an order, and what its
statements compute. A transaction reads the rows it wrote in place of the committed
ones. The assignments of one iteration of the matching loop are made together with its
`updateExecution`; the reads and Valkey commands between them use none of the new values
but those they are given.
-/

namespace EtherTrade.MatchingEngine

open DecimalNumbers KeyedRows AccountsSchema OrdersSchema OrderBook
open TradeSettlement (TradingSymbol)

structure MatchedTrade where
  tradeId : Uuid
  makerOrderId : Uuid
  takerOrderId : Uuid
  makerUserId : Uuid
  takerUserId : Uuid
  buyOrderId : Uuid
  sellOrderId : Uuid
  buyerUserId : Uuid
  sellerUserId : Uuid
  symbol : TradingSymbol
  price : ℤ
  quantity : ℤ
  buyerLimitPrice : ℤ
  buyerFee : ℤ
  sellerFee : ℤ
  deriving DecidableEq, Repr

/-- `takerOrder` is the order as inserted and `updatedTaker` as returned by its last
update; `rows` are the versions the transaction wrote. -/
structure UnitOfWork where
  takerOrder : Order
  updatedTaker : Order
  rows : List Order
  opposingOrders : List OrderbookEntry
  currentTakerRemaining : ℤ
  currentTakerFilled : ℤ
  trades : List MatchedTrade
  makerOrdersUpdated : List Order
  outboxList : List OutboxEvent
  deriving DecidableEq, Repr

/-- The values of the new row, if its columns can hold them. -/
def newOrder (request : CreateOrderRequest) (id : Uuid) : Option Order := do
  let price ← request.price.value.toColumn
  let amount ← request.amount.value.toColumn
  return {
    id
    userId := request.userId
    pair := request.pair
    side := request.side
    type := request.type
    price
    amount
    filledAmount := 0
    remainingAmount := amount
    status := .opened
    idempotencyKey := request.idempotencyKey }

/-- A buyer crosses asks at or below its price, a seller bids at or above it. -/
def isPriceMatch (takerOrder : Order) (maker : OrderbookEntry) : Bool :=
  match takerOrder.side with
  | .buy => decide (maker.price ≤ takerOrder.price)
  | .sell => decide (takerOrder.price ≤ maker.price)

/-- The next maker to trade with, and the entries after it: orders of the same user are
skipped, and the loop ends when the taker is filled or prices no longer cross. -/
def nextMaker (takerOrder : Order) (takerRemaining : ℤ) :
    List OrderbookEntry → Option (OrderbookEntry × List OrderbookEntry)
  | [] => none
  | maker :: rest =>
    if takerRemaining = 0 then none
    else if maker.userId = takerOrder.userId then nextMaker takerOrder takerRemaining rest
    else if isPriceMatch takerOrder maker then some (maker, rest)
    else none

def matchedTrade (takerOrder : Order) (maker : OrderbookEntry) (quantity : ℤ) (tradeId : Uuid) :
    MatchedTrade :=
  let isTakerBuyer := takerOrder.side = .buy
  { tradeId
    makerOrderId := maker.orderId
    takerOrderId := takerOrder.id
    makerUserId := maker.userId
    takerUserId := takerOrder.userId
    buyOrderId := if isTakerBuyer then takerOrder.id else maker.orderId
    sellOrderId := if isTakerBuyer then maker.orderId else takerOrder.id
    buyerUserId := if isTakerBuyer then takerOrder.userId else maker.userId
    sellerUserId := if isTakerBuyer then maker.userId else takerOrder.userId
    symbol := takerOrder.pair
    price := maker.price
    quantity
    buyerLimitPrice := if isTakerBuyer then takerOrder.price else maker.price
    buyerFee := 0
    sellerFee := 0 }

/-! ### Outbox events -/

def orderPlacedEvent (order : Order) (levelTotalQuantity : ℤ) (sequenceId : ℕ) : OutboxEvent where
  aggregateType := .order
  aggregateId := order.id
  partitionKey := order.pair
  eventType := "order_placed"
  payload := .orderPlaced {
    orderId := order.id
    userId := order.userId
    symbol := order.pair
    side := order.side
    type := order.type
    price := order.price
    quantity := order.amount
    levelTotalQuantity
    sequenceId }

def tradeExecutedPayload (trade : MatchedTrade) (sequenceId : ℕ) : TradeExecutedEvent where
  tradeId := trade.tradeId
  buyOrderId := trade.buyOrderId
  sellOrderId := trade.sellOrderId
  buyerUserId := trade.buyerUserId
  sellerUserId := trade.sellerUserId
  symbol := trade.symbol
  price := trade.price
  quantity := trade.quantity
  buyerLimitPrice := trade.buyerLimitPrice
  buyerFee := trade.buyerFee
  sellerFee := trade.sellerFee
  sequenceId

def tradeExecutedEvent (trade : MatchedTrade) (sequenceId : ℕ) : OutboxEvent where
  aggregateType := .trade
  aggregateId := trade.tradeId
  partitionKey := trade.symbol
  eventType := "trade_executed"
  payload := .tradeExecuted (tradeExecutedPayload trade sequenceId)

def orderFilledEvent (order : Order) : OutboxEvent where
  aggregateType := .order
  aggregateId := order.id
  partitionKey := order.pair
  eventType := "order_filled"
  payload := .orderFilled {
    orderId := order.id
    userId := order.userId
    symbol := order.pair
    filledPrice := order.price
    filledQuantity := order.filledAmount
    remainingQuantity := order.remainingAmount
    fee := 0 }

def orderCancelledEvent (order : Order) (levelTotalQuantity : ℤ) (sequenceId : ℕ) :
    OutboxEvent where
  aggregateType := .order
  aggregateId := order.id
  partitionKey := order.pair
  eventType := "order_cancelled"
  payload := .orderCancelled {
    orderId := order.id
    userId := order.userId
    symbol := order.pair
    price := order.price
    remainingQuantity := order.remainingAmount
    levelTotalQuantity
    side := order.side
    sequenceId
    reason := "User cancelled" }

namespace UnitOfWork

/-- The transaction after the insert of its order. -/
def start (order : Order) : UnitOfWork where
  takerOrder := order
  updatedTaker := order
  rows := [order]
  opposingOrders := []
  currentTakerRemaining := order.remainingAmount
  currentTakerFilled := order.filledAmount
  trades := []
  makerOrdersUpdated := []
  outboxList := []

variable (w : UnitOfWork) (db : OrdersDb)

/-- The version of a row that the transaction reads or updates. -/
def findById (orderId : Uuid) : Option Order :=
  (lookup Order.id w.rows orderId).or (db.findById orderId)

/-- The columns `updateExecution` sets. -/
def executed (order : Order) (filledAmount remainingAmount : ℤ) (status : OrderStatus) : Order :=
  { order with filledAmount, remainingAmount, status }

/-- The update names the order by its id alone. -/
def updateExecution (orderId : Uuid) (filledAmount remainingAmount : ℤ) (status : OrderStatus) :
    Option Order :=
  (w.findById db orderId).map fun order => executed order filledAmount remainingAmount status

def write (order : Option Order) : UnitOfWork :=
  { w with rows := merge Order.id w.rows order.toList }

variable (maker : OrderbookEntry)

def matchAmount : ℤ := min w.currentTakerRemaining maker.remainingAmount

def newMakerRemaining : ℤ := maker.remainingAmount - w.matchAmount maker

def makerStatus : OrderStatus :=
  if w.newMakerRemaining maker = 0 then .filled else .partiallyFilled

/-- Without a row the maker counts as unfilled before this match. -/
def currentMakerFilled : ℤ :=
  match w.findById db maker.orderId with
  | some order => order.filledAmount + w.matchAmount maker
  | none => w.matchAmount maker

/-- One match, given what the maker is filled by then. -/
def fill (makerFilled : ℤ) (tradeId : Uuid) : UnitOfWork :=
  let updatedMaker := w.updateExecution db maker.orderId makerFilled (w.newMakerRemaining maker)
    (w.makerStatus maker)
  { w.write updatedMaker with
    currentTakerRemaining := w.currentTakerRemaining - w.matchAmount maker
    currentTakerFilled := w.currentTakerFilled + w.matchAmount maker
    trades := w.trades ++ [matchedTrade w.takerOrder maker (w.matchAmount maker) tradeId]
    makerOrdersUpdated := w.makerOrdersUpdated ++ updatedMaker.toList }

def takerStatus : OrderStatus :=
  if w.currentTakerRemaining = 0 then .filled
  else if 0 < w.currentTakerFilled then .partiallyFilled
  else .opened

/-- The last update of the taker. -/
def finish : UnitOfWork :=
  let updatedTaker := w.updateExecution db w.takerOrder.id w.currentTakerFilled
    w.currentTakerRemaining w.takerStatus
  { w.write updatedTaker with updatedTaker := updatedTaker.getD w.takerOrder }

/-- The entry of a taker that rests in the book. -/
def restingEntry : OrderbookEntry where
  orderId := w.takerOrder.id
  userId := w.takerOrder.userId
  pair := w.takerOrder.pair
  side := w.takerOrder.side
  type := w.takerOrder.type
  price := w.takerOrder.price
  amount := w.takerOrder.amount
  remainingAmount := w.currentTakerRemaining

def emit (events : List OutboxEvent) : UnitOfWork :=
  { w with outboxList := w.outboxList ++ events }

/-- The taker and the updated makers that are filled. -/
def orderFilledEvents : List OutboxEvent :=
  ((w.updatedTaker :: w.makerOrdersUpdated).filter fun order => order.status = .filled).map
    orderFilledEvent

section Fields

variable {makerFilled : ℤ} {tradeId : Uuid}

@[simp] theorem fill_takerOrder : (w.fill db maker makerFilled tradeId).takerOrder = w.takerOrder :=
  rfl

@[simp] theorem fill_currentTakerRemaining :
    (w.fill db maker makerFilled tradeId).currentTakerRemaining =
      w.currentTakerRemaining - w.matchAmount maker := rfl

@[simp] theorem fill_currentTakerFilled :
    (w.fill db maker makerFilled tradeId).currentTakerFilled =
      w.currentTakerFilled + w.matchAmount maker := rfl

@[simp] theorem fill_trades : (w.fill db maker makerFilled tradeId).trades =
    w.trades ++ [matchedTrade w.takerOrder maker (w.matchAmount maker) tradeId] := rfl

@[simp] theorem fill_rows : (w.fill db maker makerFilled tradeId).rows =
    (w.write (w.updateExecution db maker.orderId makerFilled (w.newMakerRemaining maker)
      (w.makerStatus maker))).rows := rfl

@[simp] theorem finish_takerOrder : (w.finish db).takerOrder = w.takerOrder := rfl

@[simp] theorem finish_currentTakerRemaining :
    (w.finish db).currentTakerRemaining = w.currentTakerRemaining := rfl

@[simp] theorem finish_currentTakerFilled :
    (w.finish db).currentTakerFilled = w.currentTakerFilled := rfl

@[simp] theorem finish_trades : (w.finish db).trades = w.trades := rfl

@[simp] theorem finish_outboxList : (w.finish db).outboxList = w.outboxList := rfl

@[simp] theorem finish_rows : (w.finish db).rows =
    (w.write (w.updateExecution db w.takerOrder.id w.currentTakerFilled w.currentTakerRemaining
      w.takerStatus)).rows := rfl

end Fields

end UnitOfWork

end EtherTrade.MatchingEngine
