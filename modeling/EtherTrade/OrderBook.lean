import EtherTrade.OrdersSchema
import EtherTrade.SortedSets

/-!
# The order book in Valkey

A sorted set of order ids for each side of each pair, a hash with the details of each
order, and a counter for each pair. The definitions are the single commands that the
orderbook service sends, and at the end its operations on an order, run without
interruption.
-/

namespace EtherTrade.OrderBook

open DecimalNumbers AccountsSchema OrdersSchema SortedSets
open TradeSettlement (TradingSymbol)

structure OrderbookEntry where
  orderId : Uuid
  userId : Uuid
  pair : TradingSymbol
  side : OrderSide
  type : OrdersSchema.OrderType
  price : ℤ
  amount : ℤ
  remainingAmount : ℤ
  deriving DecidableEq, Repr

/-- The hash of an order: missing, with the one field that `updateRemainingAmount` sets
after the hash was deleted, or with all fields. -/
inductive OrderDetails where
  | missing
  | remainingOnly (remainingAmount : ℤ)
  | full (entry : OrderbookEntry)
  deriving DecidableEq, Repr

structure Valkey where
  orderbooks : TradingSymbol → OrderSide → SortedSet Uuid ℚ
  orderDetails : Uuid → OrderDetails
  sequences : TradingSymbol → ℕ

namespace Valkey

def empty : Valkey := ⟨fun _ _ => .empty, fun _ => .missing, fun _ => 0⟩

variable (v : Valkey)

def setOrderbook (pair : TradingSymbol) (side : OrderSide) (z : SortedSet Uuid ℚ) : Valkey :=
  { v with
    orderbooks := Function.update v.orderbooks pair (Function.update (v.orderbooks pair) side z) }

/-- The `zadd` of `addOrder`. -/
def zaddOrder (entry : OrderbookEntry) : Valkey :=
  v.setOrderbook entry.pair entry.side
    ((v.orderbooks entry.pair entry.side).zadd entry.orderId (toNumber (entry.price / scale)))

/-- The `hset` of `addOrder`. -/
def hsetOrder (entry : OrderbookEntry) : Valkey :=
  { v with orderDetails := Function.update v.orderDetails entry.orderId (.full entry) }

def updateRemainingAmount (orderId : Uuid) (remainingAmount : ℤ) : Valkey :=
  { v with
    orderDetails := Function.update v.orderDetails orderId <|
      match v.orderDetails orderId with
      | .full entry => .full { entry with remainingAmount }
      | _ => .remainingOnly remainingAmount }

/-- The `zrem` of `removeOrder`. -/
def zremOrder (orderId : Uuid) (pair : TradingSymbol) (side : OrderSide) : Valkey :=
  v.setOrderbook pair side ((v.orderbooks pair side).zrem orderId)

/-- The `del` of `removeOrder`. -/
def delOrder (orderId : Uuid) : Valkey :=
  { v with orderDetails := Function.update v.orderDetails orderId .missing }

/-- A hash without the field `orderId` counts as missing. -/
def getOrderDetails (orderId : Uuid) : Option OrderbookEntry :=
  match v.orderDetails orderId with
  | .full entry => some entry
  | _ => none

/-- The `zrange` of `getBestOpposingOrders`: lowest asks first for a buyer, highest bids
first for a seller. -/
def bestOpposingOrderIds (pair : TradingSymbol) (takerSide : OrderSide) : List Uuid :=
  (v.orderbooks pair takerSide.opposing).zrange 50 (decide (takerSide = .sell))

/-- `nextSequence` returns the counter after it is incremented. -/
def nextSequence (pair : TradingSymbol) : Valkey × ℕ :=
  let next := v.sequences pair + 1
  ({ v with sequences := Function.update v.sequences pair next }, next)

/-- The price goes through a binary number before it is compared. -/
def getLevelTotalQuantity (pair : TradingSymbol) (side : OrderSide) (price : ℤ) : ℤ :=
  let priceNum := ofNumber (toNumber (price / scale))
  let entries := ((v.orderbooks pair side).zrange 501 false).filterMap v.getOrderDetails
  ((entries.filter fun entry => entry.price / scale = priceNum).map
    OrderbookEntry.remainingAmount).sum

def addOrder (entry : OrderbookEntry) : Valkey := (v.zaddOrder entry).hsetOrder entry

def removeOrder (orderId : Uuid) (pair : TradingSymbol) (side : OrderSide) : Valkey :=
  (v.zremOrder orderId pair side).delOrder orderId

/-- The book as it is filled at start-up. -/
def rehydrate (activeOrders : List OrderbookEntry) : Valkey := activeOrders.foldl addOrder v

/-- Members whose hash is missing are left out. -/
def getBestOpposingOrders (pair : TradingSymbol) (takerSide : OrderSide) : List OrderbookEntry :=
  (v.bestOpposingOrderIds pair takerSide).filterMap v.getOrderDetails

end Valkey

end EtherTrade.OrderBook
