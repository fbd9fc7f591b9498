import EtherTrade.OrdersTransactions

/-!
# Calls of the orders service, one after the other

`createOrder` and `cancelOrder` as functions of the store: a call that no other call
interrupts and in which no statement, command or process fails. What the accounts
service answers is an input. A process of the interleaved system that runs alone does
the same.
-/

namespace EtherTrade.SequentialOrders

open DecimalNumbers KeyedRows AccountsSchema OrdersSchema OrderBook MatchingEngine
open InterleavedProcesses ResourceLocks StatusCodes OrdersTransactions

/-- The state of a transaction and the book it works on. -/
abbrev Matching := UnitOfWork × Valkey

/-- The ids a call generates. -/
structure NewIds where
  recordId : Uuid
  orderId : Uuid
  tradeIds : ℕ → Uuid

inductive Outcome where
  | returned (item : OrderItem)
  | thrown (failure : Failure)
  deriving DecidableEq, Repr

section Matching

variable (db : OrdersDb) (tradeIds : ℕ → Uuid)

/-- The commands after the update of a maker. -/
def updateBook (w : UnitOfWork) (maker : OrderbookEntry) (v : Valkey) : Valkey :=
  if w.makerStatus maker = .filled then
    v.removeOrder maker.orderId maker.pair w.takerOrder.side.opposing
  else v.updateRemainingAmount maker.orderId (w.newMakerRemaining maker)

/-- One match. -/
def fillMaker (maker : OrderbookEntry) (m : Matching) : Matching :=
  (m.1.fill db maker (m.1.currentMakerFilled db maker) (tradeIds m.1.trades.length),
    updateBook m.1 maker m.2)

/-- The loop of `executeMatch`. -/
def matchOrders : List OrderbookEntry → Matching → Matching
  | [], m => m
  | maker :: opposingOrders, m =>
    if m.1.currentTakerRemaining = 0 then m
    else if maker.userId = m.1.takerOrder.userId then matchOrders opposingOrders m
    else if isPriceMatch m.1.takerOrder maker then
      matchOrders opposingOrders (fillMaker db tradeIds maker m)
    else m

def executeMatch (m : Matching) : Matching :=
  let opposingOrders := m.2.getBestOpposingOrders m.1.takerOrder.pair m.1.takerOrder.side
  let matched := matchOrders db tradeIds opposingOrders m
  (matched.1.finish db,
    if matched.1.currentTakerRemaining = 0 then matched.2
    else matched.2.addOrder matched.1.restingEntry)

/-- The events of the trades, each with the next number of the book. -/
def reportTrades : List MatchedTrade → Matching → Matching
  | [], m => m
  | trade :: trades, m =>
    let (valkey, sequenceId) := m.2.nextSequence trade.symbol
    reportTrades trades (m.1.emit [tradeExecutedEvent trade sequenceId], valkey)

/-- The transaction of a new order, up to its commit. -/
def placeOrder (order : Order) (v : Valkey) : Matching :=
  let (valkey, sequenceId) := v.nextSequence order.pair
  let levelTotalQuantity := valkey.getLevelTotalQuantity order.pair order.side order.price
  let matched := executeMatch db tradeIds
    ((UnitOfWork.start order).emit [orderPlacedEvent order levelTotalQuantity sequenceId], valkey)
  let reported := reportTrades matched.1.trades matched
  (reported.1.emit reported.1.orderFilledEvents, reported.2)

end Matching

variable (s : OrdersStore)

/-- How a call ends that finds a record of its key, if it ends there. -/
def findOutcome (request : CreateOrderRequest) : Option Outcome :=
  match s.db.findRecord s.now request.userId createOrderOperation request.idempotencyKey with
  | none => none
  | some record =>
    match resolveRecord request record with
    | .returned item => some (.returned item)
    | .thrown failure => some (.thrown failure)
    | _ => none

/-- The unique indexes refuse a second record of the key. -/
def recordExists (request : CreateOrderRequest) (recordId : Uuid) : Bool :=
  (lookup IdempotencyRecord.scope s.db.idempotencyRecords
      (newRecord request recordId s.now).scope).isSome ||
    (lookup IdempotencyRecord.id s.db.idempotencyRecords recordId).isSome

/-- The store when the lock is sent. -/
def lockSent (request : CreateOrderRequest) (recordId : Uuid) : OrdersStore :=
  { s with
    db := s.db.insertRecord (newRecord request recordId s.now)
    balanceRequests := s.balanceRequests ++ [balanceRequest .lockBalance "lock:" request] }

/-- The order a call inserts, unless a column or the primary key refuses it. -/
def insertedOrder (request : CreateOrderRequest) (orderId : Uuid) : Option Order :=
  (newOrder request orderId).filter fun _ => (s.db.findById orderId).isNone

/-- The transaction has been rolled back: the lock is compensated. -/
def compensated (request : CreateOrderRequest) (recordId : Uuid) : OrdersStore :=
  { s with
    db := s.db.failRecord recordId
    balanceRequests := s.balanceRequests ++ [balanceRequest .unlockBalance "unlock:" request] }

/-- What a call with a lock does. -/
def placed (ids : NewIds) (order : Order) : OrdersStore × Outcome :=
  let (w, valkey) := placeOrder s.db ids.tradeIds order s.valkey
  let item := mapOrderToItem w.updatedTaker
  ({ s with
      db := (s.db.install w.rows w.outboxList).completeRecord ids.recordId item
      valkey },
    .returned item)

/-- What a call does once its lock is answered. -/
def answered (request : CreateOrderRequest) (ids : NewIds) : BalanceReply → OrdersStore × Outcome
  | .error message =>
    ({ s with db := s.db.failRecord ids.recordId },
      .thrown (.rpc ⟨HttpStatus.paymentRequired,
        if message = "" then
          OrdersErrors.insufficientBalance (lockCurrency request) (lockAmount request)
        else message⟩))
  | .ok =>
    match insertedOrder s request ids.orderId with
    | none => (compensated s request ids.recordId, .thrown .infrastructure)
    | some order => placed s ids order

/-- `createOrder` of a valid request. -/
def createOrder (request : CreateOrderRequest) (ids : NewIds) (lockReply : BalanceReply) :
    OrdersStore × Outcome :=
  match findOutcome s request with
  | some outcome => (s, outcome)
  | none =>
    if recordExists s request ids.recordId then (s, .thrown .infrastructure)
    else answered (lockSent s request ids.recordId) request ids lockReply

/-- The order that a call places, if it gets that far. -/
def placedOrder (request : CreateOrderRequest) (ids : NewIds) (lockReply : BalanceReply) :
    Option Order :=
  if (findOutcome s request).isNone ∧ recordExists s request ids.recordId = false ∧
      lockReply = .ok then insertedOrder s request ids.orderId
  else none

section Created

variable {s} {request : CreateOrderRequest} {ids : NewIds} {lockReply : BalanceReply} {order : Order}

theorem createOrder_of_placed (h : placedOrder s request ids lockReply = some order) :
    createOrder s request ids lockReply = placed (lockSent s request ids.recordId) ids order := by
  unfold placedOrder at h
  split at h
  · next hreached =>
    obtain ⟨houtcome, hrecord, rfl⟩ := hreached
    rw [Option.isNone_iff_eq_none] at houtcome
    have hinserted : insertedOrder (lockSent s request ids.recordId) request ids.orderId =
        some order := h
    simp only [createOrder, houtcome, hrecord, answered, hinserted, Bool.false_eq_true, if_false]
  · cases h

theorem newOrder_of_placed (h : placedOrder s request ids lockReply = some order) :
    newOrder request ids.orderId = some order ∧ s.db.findById ids.orderId = none := by
  unfold placedOrder at h
  split at h
  · obtain ⟨hvalues, hnone⟩ := Option.filter_eq_some_iff.mp h
    exact ⟨hvalues, by simpa using hnone⟩
  · cases h

/-- A call that places no order leaves the orders, the events and the book. -/
theorem createOrder_of_unplaced (h : placedOrder s request ids lockReply = none) :
    (createOrder s request ids lockReply).1.db.orders = s.db.orders ∧
      (createOrder s request ids lockReply).1.db.outboxEvents = s.db.outboxEvents ∧
        (createOrder s request ids lockReply).1.valkey = s.valkey := by
  rw [createOrder]
  split
  · exact ⟨rfl, rfl, rfl⟩
  · next houtcome =>
    split
    · exact ⟨rfl, rfl, rfl⟩
    · next hrecord =>
      cases lockReply with
      | error message => exact ⟨rfl, rfl, rfl⟩
      | ok =>
        have hreached : (findOutcome s request).isNone ∧
            recordExists s request ids.recordId = false ∧ BalanceReply.ok = .ok :=
          ⟨houtcome ▸ rfl, by simpa using hrecord, rfl⟩
        rw [placedOrder, if_pos hreached] at h
        have hinserted : insertedOrder (lockSent s request ids.recordId) request ids.orderId =
            none := h
        simp only [answered, hinserted]
        exact ⟨rfl, rfl, rfl⟩

end Created

/-- The order a cancellation finds, or what it throws. -/
def findCancellable (request : CancelOrderRequest) : Except RpcException Order :=
  match s.db.findByIdAndUserId request.orderId request.userId with
  | none => .error ⟨HttpStatus.notFound, OrdersErrors.orderNotFound request.orderId⟩
  | some order =>
    if order.status = .cancelled then
      .error ⟨HttpStatus.badRequest, OrdersErrors.orderAlreadyCancelled request.orderId⟩
    else if order.status = .filled then
      .error ⟨HttpStatus.badRequest, OrdersErrors.orderAlreadyFilled request.orderId⟩
    else .ok order

/-- The unlock of a cancellation, unless there is nothing to unlock. -/
def unlockRequests (request : CancelOrderRequest) (cancelledOrder : Order) : List BalanceRequest :=
  match unlockAmount cancelledOrder with
  | .digits 0 (_ + 1) => [unlockRequest request cancelledOrder]
  | _ => []

def cancelOrder (request : CancelOrderRequest) : OrdersStore × Outcome :=
  match findCancellable s request with
  | .error exception => (s, .thrown (.rpc exception))
  | .ok order =>
    let (valkey, sequenceId) :=
      (s.valkey.removeOrder request.orderId order.pair order.side).nextSequence order.pair
    let levelTotalQuantity := valkey.getLevelTotalQuantity order.pair order.side order.price
    match cancellableOrder s.db request with
    | none =>
      ({ s with valkey },
        .thrown (.rpc
          ⟨HttpStatus.badRequest, OrdersErrors.orderAlreadyFilled request.orderId⟩))
    | some order =>
      let updated := { order with status := .cancelled }
      let event := orderCancelledEvent updated levelTotalQuantity sequenceId
      ({ s with
          db := s.db.install [updated] [event]
          valkey
          balanceRequests := s.balanceRequests ++ unlockRequests request updated },
        .returned (mapOrderToItem updated))

theorem findById_of_findCancellable {s : OrdersStore} {request : CancelOrderRequest} {order : Order}
    (h : findCancellable s request = .ok order) :
    s.db.findById request.orderId = some order ∧ order.id = request.orderId ∧
      cancellableOrder s.db request =
        if order.status ∈ OrderStatus.cancellable then some order else none := by
  unfold findCancellable at h
  split at h
  · cases h
  · next row hrow =>
    have hok : row = order := by
      split at h
      · cases h
      · split at h
        · cases h
        · exact Except.ok.inj h
    subst hok
    have hfind := (Option.filter_eq_some_iff.mp hrow).1
    refine ⟨hfind, (lookup_mem hfind).2, ?_⟩
    rw [cancellableOrder, hrow, Option.filter_some]
    simp only [decide_eq_true_eq]

/-- A cancellation changes no row, or cancels an open order of the user and sends its unlock. -/
theorem cancelOrder_cases (request : CancelOrderRequest) :
    ((cancelOrder s request).1.db = s.db ∧
      (cancelOrder s request).1.balanceRequests = s.balanceRequests) ∨
    ∃ order event, s.db.findById order.id = some order ∧ order.userId = request.userId ∧
      order.status ∈ OrderStatus.cancellable ∧ event.trade = none ∧
        (cancelOrder s request).1.db =
          s.db.install [{ order with status := .cancelled }] [event] ∧
        (cancelOrder s request).1.balanceRequests =
          s.balanceRequests ++ unlockRequests request { order with status := .cancelled } := by
  rw [cancelOrder]
  split
  · exact Or.inl ⟨rfl, rfl⟩
  · cases hcancellable : cancellableOrder s.db request with
    | none => exact Or.inl ⟨rfl, rfl⟩
    | some order =>
      simp only [cancellableOrder, OrdersDb.findByIdAndUserId, Option.filter_eq_some_iff,
        decide_eq_true_eq] at hcancellable
      obtain ⟨⟨hfind, huser⟩, hstatus⟩ := hcancellable
      have hid : order.id = request.orderId := (lookup_mem hfind).2
      exact Or.inr ⟨order, _, hid ▸ hfind, huser, hstatus, rfl, rfl, rfl⟩

/-! ### Runs -/

/-- A call with what it generates and is answered. -/
inductive Call where
  | createOrder (request : CreateOrderRequest) (ids : NewIds) (lockReply : BalanceReply)
  | cancelOrder (request : CancelOrderRequest)
  | passTime (ms : ℕ)

/-- The store after a call. A request that is not valid changes nothing. -/
def Call.run (s : OrdersStore) : Call → OrdersStore
  | .createOrder request ids lockReply =>
    match validateCreateOrderRequest request with
    | some _ => s
    | none => (SequentialOrders.createOrder s request ids lockReply).1
  | .cancelOrder request => (SequentialOrders.cancelOrder s request).1
  | .passTime ms => { s with now := s.now + ms }

/-- The store after calls from an empty one. -/
def runCalls (calls : List Call) : OrdersStore := calls.foldl Call.run ⟨.empty, .empty, [], 0⟩

end EtherTrade.SequentialOrders
