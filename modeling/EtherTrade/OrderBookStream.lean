import EtherTrade.GroupedTotals
import EtherTrade.SequentialOrders

/-!
# The order book as clients follow it

A client takes a snapshot of the aggregated book with a number of the book, and applies to
it the level updates that the gateway derives from events with later numbers. The snapshot
is read in one step, at any point of a call: the commands with which the service reads the
two sides, the details of their orders and the number are taken as one.
-/

namespace EtherTrade.OrderBookStream

open KeyedRows GroupedTotals AccountsSchema OrdersSchema OrderBook MatchingEngine
open OrdersTransactions SequentialOrders SortedSets
open TradeSettlement (TradingSymbol)

/-! ### Snapshots -/

structure OrderBookLevel where
  price : ℤ
  amount : ℤ
  orderCount : ℕ
  deriving DecidableEq, Repr

structure GetOrderBookResponse where
  pair : TradingSymbol
  bids : List OrderBookLevel
  asks : List OrderBookLevel
  sequenceId : ℕ
  deriving DecidableEq, Repr

section Snapshots

variable (v : Valkey) (pair : TradingSymbol)

/-- The levels of some orders, in the order in which their prices first come. Orders without
details are left out. -/
def priceLevels (orderIds : List Uuid) : List OrderBookLevel :=
  (totals OrderbookEntry.price (fun entry => (entry.remainingAmount, 1))
    (orderIds.filterMap v.getOrderDetails)).map fun level => ⟨level.1, level.2.1, level.2.2⟩

/-- The loop stops after the level that reaches the depth. -/
def aggregateLevels (orderIds : List Uuid) (maxDepth : ℕ) : List OrderBookLevel :=
  (priceLevels v orderIds).take (max 1 maxDepth)

/-- The orders of one side, the best prices first: twice as many as there are to be levels. The
end of the range for a depth of zero is −1, which stands for the last. -/
def sideOrderIds (side : OrderSide) (depth : ℕ) : List Uuid :=
  let orderbook := v.orderbooks pair side
  orderbook.zrange (if depth = 0 then orderbook.entries.length else depth * 2)
    (decide (side = .buy))

/-- The current number of the book. -/
def getSequence : ℕ := v.sequences pair

/-- The separate commands of a snapshot see one state. -/
def getOrderBook (depth : ℕ) : GetOrderBookResponse where
  pair
  bids := aggregateLevels v (sideOrderIds v pair .buy depth) depth
  asks := aggregateLevels v (sideOrderIds v pair .sell depth) depth
  sequenceId := getSequence v pair

/-- The orders of one side. -/
def allOrderIds (side : OrderSide) : List Uuid :=
  (v.orderbooks pair side).entries.map Prod.fst

/-- All orders of a side are read, and all their levels returned. -/
def CoversSide (depth : ℕ) (side : OrderSide) : Prop :=
  (allOrderIds v pair side).length ≤ depth * 2 ∧
    (priceLevels v (sideOrderIds v pair side depth)).length ≤ depth

/-- The depth covers the whole book. -/
def Covers (depth : ℕ) : Prop :=
  CoversSide v pair depth .buy ∧ CoversSide v pair depth .sell

instance (depth : ℕ) : Decidable (Covers v pair depth) :=
  inferInstanceAs (Decidable ((_ ≤ _ ∧ _ ≤ _) ∧ (_ ≤ _ ∧ _ ≤ _)))

end Snapshots

/-! ### Updates -/

/-- The level update of the channel of a pair. -/
structure WsOrderBookUpdateMessage where
  symbol : TradingSymbol
  sequenceId : ℕ
  side : OrderSide
  price : ℤ
  quantity : ℤ
  deriving DecidableEq, Repr

def handleOrderPlaced (event : OrderPlacedEvent) : WsOrderBookUpdateMessage where
  symbol := event.symbol
  sequenceId := event.sequenceId
  side := event.side
  price := event.price
  quantity := event.levelTotalQuantity

def handleOrderCancelled (event : OrderCancelledEvent) : WsOrderBookUpdateMessage where
  symbol := event.symbol
  sequenceId := event.sequenceId
  side := event.side
  price := event.price
  quantity := event.levelTotalQuantity

/-- What the gateway broadcasts on channels of order books. Trades and filled orders go to
other channels only. -/
def handleMessage : OutboxPayload → Option WsOrderBookUpdateMessage
  | .orderPlaced event => some (handleOrderPlaced event)
  | .orderCancelled event => some (handleOrderCancelled event)
  | .tradeExecuted _ => none
  | .orderFilled _ => none

/-- The updates on the channel of a pair. -/
def broadcast (pair : TradingSymbol) (events : List OutboxEvent) : List WsOrderBookUpdateMessage :=
  (events.filterMap fun event => handleMessage event.payload).filter fun delta =>
    delta.symbol = pair

/-! ### Clients -/

/-- The quantity at each price of each side, where there is a level. -/
abbrev LevelBook := OrderSide → ℤ → Option ℤ

/-- The book that a client reads from a response. -/
def levelsOf (response : GetOrderBookResponse) : LevelBook
  | .buy, price => (lookup OrderBookLevel.price response.bids price).map OrderBookLevel.amount
  | .sell, price => (lookup OrderBookLevel.price response.asks price).map OrderBookLevel.amount

/-- A level takes the quantity of the update, and is removed at zero. -/
def applyDelta (book : LevelBook) (delta : WsOrderBookUpdateMessage) : LevelBook :=
  fun side price =>
    if side = delta.side ∧ price = delta.price then
      if delta.quantity = 0 then none else some delta.quantity
    else book side price

/-- The updates with later numbers than the snapshot, in the order of their numbers. -/
def laterDeltas (snapshot : GetOrderBookResponse) (events : List OutboxEvent) :
    List WsOrderBookUpdateMessage :=
  ((broadcast snapshot.pair events).filter fun delta =>
      snapshot.sequenceId < delta.sequenceId).mergeSort fun a b => a.sequenceId ≤ b.sequenceId

/-- The book of a client with a snapshot, once these events have been broadcast. -/
def replayed (snapshot : GetOrderBookResponse) (events : List OutboxEvent) : LevelBook :=
  (laterDeltas snapshot events).foldl applyDelta (levelsOf snapshot)

/-! ### The book in the course of a call -/

section Commands

variable (db : OrdersDb) (tradeIds : ℕ → Uuid)

/-- The book after each command that follows the update of a maker. -/
def makerBooks (w : UnitOfWork) (maker : OrderbookEntry) (v : Valkey) : List Valkey :=
  if w.makerStatus maker = .filled then
    [v.zremOrder maker.orderId maker.pair w.takerOrder.side.opposing,
      v.removeOrder maker.orderId maker.pair w.takerOrder.side.opposing]
  else [v.updateRemainingAmount maker.orderId (w.newMakerRemaining maker)]

/-- The book after each command of the loop of `executeMatch`. -/
def matchBooks : List OrderbookEntry → Matching → List Valkey
  | [], _ => []
  | maker :: opposingOrders, m =>
    if m.1.currentTakerRemaining = 0 then []
    else if maker.userId = m.1.takerOrder.userId then matchBooks opposingOrders m
    else if isPriceMatch m.1.takerOrder maker then
      makerBooks m.1 maker m.2 ++ matchBooks opposingOrders (fillMaker db tradeIds maker m)
    else []

/-- The book after each number that is taken for a trade. -/
def numberBooks : List MatchedTrade → Valkey → List Valkey
  | [], _ => []
  | trade :: trades, v => (v.nextSequence trade.symbol).1 :: numberBooks trades
      (v.nextSequence trade.symbol).1

/-- The book after each command of the transaction of a new order, and before the first. -/
def placeBooks (order : Order) (v : Valkey) : List Valkey :=
  let (counted, sequenceId) := v.nextSequence order.pair
  let levelTotalQuantity := counted.getLevelTotalQuantity order.pair order.side order.price
  let m := ((UnitOfWork.start order).emit [orderPlacedEvent order levelTotalQuantity sequenceId],
    counted)
  let opposingOrders := counted.getBestOpposingOrders order.pair order.side
  let matched := matchOrders db tradeIds opposingOrders m
  let rested := if matched.1.currentTakerRemaining = 0 then []
    else [matched.2.zaddOrder matched.1.restingEntry, matched.2.addOrder matched.1.restingEntry]
  v :: counted :: matchBooks db tradeIds opposingOrders m ++ rested ++
    numberBooks matched.1.trades (executeMatch db tradeIds m).2

end Commands

variable (s : OrdersStore)

/-- The book after each command of a cancellation, and before the first. -/
def cancelBooks (request : CancelOrderRequest) : List Valkey :=
  match findCancellable s request with
  | .error _ => [s.valkey]
  | .ok order =>
    let removed := s.valkey.zremOrder request.orderId order.pair order.side
    let deleted := removed.delOrder request.orderId
    [s.valkey, removed, deleted, (deleted.nextSequence order.pair).1]

/-- The book as it is found in the course of a call. -/
def callBooks : Call → List Valkey
  | .createOrder request ids lockReply =>
    match validateCreateOrderRequest request with
    | some _ => [s.valkey]
    | none =>
      match placedOrder s request ids lockReply with
      | none => [s.valkey]
      | some order =>
        placeBooks (lockSent s request ids.recordId).db ids.tradeIds order s.valkey
  | .cancelOrder request => cancelBooks s request
  | .passTime _ => [s.valkey]

/-- The client that took the snapshot has the book of the store, with all its levels. -/
def Follows (snapshot : GetOrderBookResponse) (s : OrdersStore) : Prop :=
  ∀ depth, Covers s.valkey snapshot.pair depth →
    replayed snapshot s.db.outboxEvents = levelsOf (getOrderBook s.valkey snapshot.pair depth)

end EtherTrade.OrderBookStream
