import EtherTrade.InterleavedProcesses
import EtherTrade.MatchingEngine
import EtherTrade.ResourceLocks

/-!
# Concurrent createOrder and cancelOrder calls

Calls as interleaved processes, one statement or Valkey command at a time. The database
is READ COMMITTED: a statement reads what is committed and what its own transaction
wrote, and a row that a transaction inserted or updated is locked until it ends. What a
transaction wrote stays in its local state until it commits. Valkey commands take effect
at once and are not undone. Any statement may fail, a commit may take effect although
its acknowledgement is lost, and any process may stop after any step.

Balance calls are sent to the accounts service and recorded; its reply is the
environment's. The hashes that `getLevelTotalQuantity` sums are read in one step.
-/

namespace EtherTrade.OrdersTransactions

open DecimalNumbers KeyedRows AccountsSchema OrdersSchema OrderBook
open MatchingEngine InterleavedProcesses ResourceLocks StatusCodes

/-- The balance calls of the orders service. -/
inductive BalanceMethod where
  | lockBalance
  | unlockBalance
  deriving DecidableEq, Repr

structure BalanceRequest where
  method : BalanceMethod
  userId : Uuid
  amount : NumericText
  currency : Currency
  idempotencyKey : String
  referenceId : String
  deriving DecidableEq, Repr

/-- The outcome of a balance call: success, or an error with its message. -/
inductive BalanceReply where
  | ok
  | error (message : String)
  deriving DecidableEq, Repr

structure OrdersStore where
  db : OrdersDb
  valkey : Valkey
  balanceRequests : List BalanceRequest
  now : ℕ

/-- What a transaction locks is a row of `orders`, or the primary key of one it inserted. -/
abbrev Shared := Locked OrdersStore Uuid

/-- What a call throws: an exception of its own, or one of the database or of Valkey. -/
inductive Failure where
  | rpc (exception : RpcException)
  | infrastructure
  deriving DecidableEq, Repr

/-- Finite and greater than zero. -/
def isPositive : BigNumber → Bool
  | .finite q => decide (0 < q)
  | _ => false

/-- A column stores a number that is not negative. -/
theorem toColumn_nonneg {n : BigNumber} {units : ℤ} (hpositive : isPositive n = true)
    (h : n.toColumn = some units) : 0 ≤ units := by
  cases n with
  | finite q =>
    have hq : 0 < q := by simpa [isPositive] using hpositive
    simp only [BigNumber.toColumn, not_lt.mpr hq.le, if_false] at h
    split at h
    · obtain rfl := Option.some.inj h
      exact roundHalfUp_nonneg (abs_nonneg q)
    · cases h
  | nan => simp [isPositive] at hpositive
  | infinite negative => simp [isPositive] at hpositive

/-- The checks of a request, in order. -/
def validateCreateOrderRequest (request : CreateOrderRequest) : Option RpcException :=
  if request.pair ∉ supportedPairs then
    some ⟨HttpStatus.badRequest, OrdersErrors.unsupportedPair request.pair⟩
  else if !isPositive request.price.value then
    some ⟨HttpStatus.badRequest, OrdersErrors.invalidPrice⟩
  else if !isPositive request.amount.value then
    some ⟨HttpStatus.badRequest, OrdersErrors.invalidAmount⟩
  else none

theorem validateCreateOrderRequest_eq_none {request : CreateOrderRequest}
    (h : validateCreateOrderRequest request = none) :
    isPositive request.price.value = true ∧ isPositive request.amount.value = true := by
  unfold validateCreateOrderRequest at h
  split at h
  · cases h
  · split at h
    · cases h
    · next hprice =>
      split at h
      · cases h
      · next hamount => exact ⟨by simpa using hprice, by simpa using hamount⟩

/-- A request that passed the checks. -/
abbrev ValidRequest :=
  { request : CreateOrderRequest // validateCreateOrderRequest request = none }

/-- How far the unit of work is; each names what is done next. -/
inductive Point where
  | sequencing
  | totalling (sequenceId : ℕ)
  | ranging
  | reading (orderIds : List Uuid)
  | visiting
  | finding (maker : OrderbookEntry)
  | updating (maker : OrderbookEntry) (makerFilled : ℤ)
  | removing (maker : OrderbookEntry)
  | deleting (maker : OrderbookEntry)
  | caching (maker : OrderbookEntry) (remainingAmount : ℤ)
  | updatingTaker
  | adding
  | detailing
  | numbering (rest : List MatchedTrade)
  | committing
  deriving DecidableEq, Repr

inductive Placing where
  | inserting
  | active (w : UnitOfWork) (point : Point)
  | committed (order : Order)
  | rolledBack
  deriving DecidableEq, Repr

inductive Creating where
  | checking
  | recording
  | locking (recordId : Uuid)
  | awaitingLock (recordId : Uuid)
  | lockRefused (recordId : Uuid) (message : String)
  | placing (recordId : Uuid) (placing : Placing)
  | awaitingUnlock (recordId : Uuid)
  | failing (recordId : Uuid)
  | returned (item : OrderItem)
  | thrown (failure : Failure)
  deriving DecidableEq, Repr

inductive Cancelling where
  | finding
  | removing (order : Order)
  | deleting (order : Order)
  | sequencing (order : Order)
  | totalling (order : Order) (sequenceId : ℕ)
  | updating (levelTotalQuantity : ℤ) (sequenceId : ℕ)
  | recording (updated : Order) (levelTotalQuantity : ℤ) (sequenceId : ℕ)
  | committing (updated : Order) (event : OutboxEvent)
  | unlocking (cancelledOrder : Order)
  | awaitingUnlock (cancelledOrder : Order)
  | returned (item : OrderItem)
  | thrown (failure : Failure)
  deriving DecidableEq, Repr

inductive Process where
  | idle
  | refused (exception : RpcException)
  | creating (request : ValidRequest) (progress : Creating)
  | cancelling (request : CancelOrderRequest) (progress : Cancelling)
  deriving DecidableEq, Repr

/-- What a process can do: start as a call, run its next statement or command, insert a
row or make a trade with a new id, receive a reply, fail, or commit without learning of
it. Time passes between calls. -/
inductive Action where
  | createOrder (request : CreateOrderRequest)
  | cancelOrder (request : CancelOrderRequest)
  | statement
  | insert (newId : Uuid)
  | trade (tradeId : Uuid)
  | reply (reply : BalanceReply)
  | abort
  | commitUnacknowledged
  | passTime (ms : ℕ)
  deriving DecidableEq, Repr

variable (p : ℕ) (s : Shared)

/-! ### Effects on the shared store -/

def setDb (db : OrdersDb) : Shared := ⟨{ s.store with db }, s.locks⟩

def setValkey (valkey : Valkey) : Shared := ⟨{ s.store with valkey }, s.locks⟩

def send (request : BalanceRequest) : Shared :=
  ⟨{ s.store with balanceRequests := s.store.balanceRequests ++ [request] }, s.locks⟩

def takeLock (orderId : Uuid) : Shared := ⟨s.store, s.locks.acquire p orderId⟩

/-- The end of a transaction without its writes. -/
def rollback : Shared := ⟨s.store, s.locks.release p⟩

def commit (rows : List Order) (events : List OutboxEvent) : Shared :=
  ⟨{ s.store with db := s.store.db.install rows events }, s.locks.release p⟩

/-! ### createOrder -/

def createOrderOperation : String := "CREATE_ORDER"

def lockCurrency (request : CreateOrderRequest) : Currency :=
  match request.side with
  | .buy => request.pair.quote
  | .sell => request.pair.base

def lockAmount (request : CreateOrderRequest) : NumericText :=
  match request.side with
  | .buy => (request.price.value.multipliedBy request.amount.value).toFixedHalfUp
  | .sell => request.amount.value.toFixedHalfUp

/-- The lock of a new order and the unlock that compensates it. -/
def balanceRequest (method : BalanceMethod) (keyPrefix : String) (request : CreateOrderRequest) :
    BalanceRequest where
  method
  userId := request.userId
  amount := lockAmount request
  currency := lockCurrency request
  idempotencyKey := keyPrefix ++ request.idempotencyKey
  referenceId := request.idempotencyKey

def newRecord (request : CreateOrderRequest) (id : Uuid) (now : ℕ) : IdempotencyRecord where
  id
  userId := request.userId
  operation := createOrderOperation
  key := request.idempotencyKey
  requestHash := requestHash request
  status := .inProgress
  responsePayload := none
  expiresAt := now + 24 * 60 * 60 * 1000

/-- What a call does that finds a record of its key. -/
def resolveRecord (request : CreateOrderRequest) (record : IdempotencyRecord) : Creating :=
  match record.status, record.responsePayload with
  | .completed, some item => .returned item
  | .inProgress, _ =>
    .thrown (.rpc ⟨HttpStatus.conflict, OrdersErrors.idempotencyInProgress⟩)
  | _, _ =>
    if record.requestHash ≠ requestHash request then
      .thrown (.rpc ⟨HttpStatus.badRequest, OrdersErrors.idempotencyPayloadMismatch⟩)
    else .recording

/-- The unit of work, statement by statement. -/
def activeStep (w : UnitOfWork) : Point → Action → Option (Shared × Placing)
  | .sequencing, .statement =>
    let (valkey, sequenceId) := s.store.valkey.nextSequence w.takerOrder.pair
    some (setValkey s valkey, .active w (.totalling sequenceId))
  | .totalling sequenceId, .statement =>
    let levelTotalQuantity := s.store.valkey.getLevelTotalQuantity w.takerOrder.pair
      w.takerOrder.side w.takerOrder.price
    some (s, .active
      (w.emit [orderPlacedEvent w.takerOrder levelTotalQuantity sequenceId]) .ranging)
  | .ranging, .statement =>
    some (s, .active w
      (.reading (s.store.valkey.bestOpposingOrderIds w.takerOrder.pair w.takerOrder.side)))
  | .reading [], .statement => some (s, .active w .visiting)
  | .reading (orderId :: orderIds), .statement =>
    let details := s.store.valkey.getOrderDetails orderId
    some (s, .active { w with opposingOrders := w.opposingOrders ++ details.toList }
      (.reading orderIds))
  | .visiting, .statement =>
    match nextMaker w.takerOrder w.currentTakerRemaining w.opposingOrders with
    | none => some (s, .active w .updatingTaker)
    | some (maker, rest) => some (s, .active { w with opposingOrders := rest } (.finding maker))
  | .finding maker, .statement =>
    some (s, .active w (.updating maker (w.currentMakerFilled s.store.db maker)))
  | .updating maker makerFilled, .trade tradeId =>
    let matched := w.fill s.store.db maker makerFilled tradeId
    let next := if w.makerStatus maker = .filled then .removing maker
      else .caching maker (w.newMakerRemaining maker)
    -- an update that finds no row locks nothing and returns nothing
    if (w.findById s.store.db maker.orderId).isNone then some (s, .active matched next)
    else if s.locks.Available p maker.orderId then
      some (takeLock p s maker.orderId, .active matched next)
    else none
  | .removing maker, .statement =>
    some (setValkey s (s.store.valkey.zremOrder maker.orderId maker.pair w.takerOrder.side.opposing),
      .active w (.deleting maker))
  | .deleting maker, .statement =>
    some (setValkey s (s.store.valkey.delOrder maker.orderId), .active w .visiting)
  | .caching maker remainingAmount, .statement =>
    some (setValkey s (s.store.valkey.updateRemainingAmount maker.orderId remainingAmount),
      .active w .visiting)
  | .updatingTaker, .statement =>
    let next := if w.currentTakerRemaining = 0 then .numbering w.trades else .adding
    some (s, .active (w.finish s.store.db) next)
  | .adding, .statement =>
    some (setValkey s (s.store.valkey.zaddOrder w.restingEntry), .active w .detailing)
  | .detailing, .statement =>
    some (setValkey s (s.store.valkey.hsetOrder w.restingEntry), .active w (.numbering w.trades))
  | .numbering (trade :: rest), .statement =>
    let (valkey, sequenceId) := s.store.valkey.nextSequence trade.symbol
    some (setValkey s valkey, .active (w.emit [tradeExecutedEvent trade sequenceId])
      (.numbering rest))
  | .numbering [], .statement => some (s, .active (w.emit w.orderFilledEvents) .committing)
  | .committing, .statement => some (commit p s w.rows w.outboxList, .committed w.updatedTaker)
  | .committing, .commitUnacknowledged => some (commit p s w.rows w.outboxList, .rolledBack)
  | _, .abort => some (rollback p s, .rolledBack)
  | _, _ => none

/-- The transaction of a new order. -/
def placingStep (request : CreateOrderRequest) : Placing → Action → Option (Shared × Placing)
  | .inserting, .insert newId =>
    match newOrder request newId with
    | none => some (rollback p s, .rolledBack)
    | some order =>
      if s.locks.Available p newId then
        if (s.store.db.findById newId).isSome then some (rollback p s, .rolledBack)
        else some (takeLock p s newId, .active (.start order) .sequencing)
      else none
  | .inserting, .abort => some (rollback p s, .rolledBack)
  | .active w point, action => activeStep p s w point action
  | _, _ => none

/-- `createOrder` after its request is validated. -/
def creatingStep (request : CreateOrderRequest) : Creating → Action → Option (Shared × Creating)
  | .checking, .statement =>
    match s.store.db.findRecord s.store.now request.userId createOrderOperation
        request.idempotencyKey with
    | none => some (s, .recording)
    | some record => some (s, resolveRecord request record)
  | .recording, .insert recordId =>
    let record := newRecord request recordId s.store.now
    if (lookup IdempotencyRecord.scope s.store.db.idempotencyRecords record.scope).isSome ||
        (lookup IdempotencyRecord.id s.store.db.idempotencyRecords recordId).isSome then
      some (s, .thrown .infrastructure)
    else some (setDb s (s.store.db.insertRecord record), .locking recordId)
  | .locking recordId, .statement =>
    some (send s (balanceRequest .lockBalance "lock:" request), .awaitingLock recordId)
  | .awaitingLock recordId, .reply .ok => some (s, .placing recordId .inserting)
  | .awaitingLock recordId, .reply (.error message) =>
    some (s, .lockRefused recordId
      (if message = "" then
        OrdersErrors.insufficientBalance (lockCurrency request) (lockAmount request)
      else message))
  | .lockRefused recordId message, .statement =>
    some (setDb s (s.store.db.failRecord recordId),
      .thrown (.rpc ⟨HttpStatus.paymentRequired, message⟩))
  | .placing recordId (.committed order), .statement =>
    let item := mapOrderToItem order
    some (setDb s (s.store.db.completeRecord recordId item), .returned item)
  | .placing recordId .rolledBack, .statement =>
    some (send s (balanceRequest .unlockBalance "unlock:" request), .awaitingUnlock recordId)
  | .awaitingUnlock recordId, .reply _ => some (s, .failing recordId)
  | .failing recordId, .statement =>
    some (setDb s (s.store.db.failRecord recordId), .thrown .infrastructure)
  | .placing _ (.committed _), .abort => some (s, .thrown .infrastructure)
  | .placing recordId placing, action =>
    (placingStep p s request placing action).map fun r => (r.1, .placing recordId r.2)
  | .checking, .abort => some (s, .thrown .infrastructure)
  | .recording, .abort => some (s, .thrown .infrastructure)
  | .lockRefused _ _, .abort => some (s, .thrown .infrastructure)
  | .failing _, .abort => some (s, .thrown .infrastructure)
  | _, _ => none

/-! ### cancelOrder -/

/-- The row that the conditional update of `cancel` applies to. -/
def cancellableOrder (db : OrdersDb) (request : CancelOrderRequest) : Option Order :=
  (db.findByIdAndUserId request.orderId request.userId).filter fun order =>
    order.status ∈ OrderStatus.cancellable

def unlockAmount (cancelledOrder : Order) : NumericText :=
  match cancelledOrder.side with
  | .buy =>
    BigNumber.toFixedHalfUp
      (.finite (cancelledOrder.price / scale * (cancelledOrder.remainingAmount / scale)))
  | .sell => BigNumber.toFixedHalfUp (.finite (cancelledOrder.remainingAmount / scale))

def unlockRequest (request : CancelOrderRequest) (cancelledOrder : Order) : BalanceRequest where
  method := .unlockBalance
  userId := request.userId
  amount := unlockAmount cancelledOrder
  currency := match cancelledOrder.side with
    | .buy => cancelledOrder.pair.quote
    | .sell => cancelledOrder.pair.base
  idempotencyKey := "cancel:" ++ request.idempotencyKey
  referenceId := request.orderId

def cancellingStep (request : CancelOrderRequest) :
    Cancelling → Action → Option (Shared × Cancelling)
  | .finding, .statement =>
    match s.store.db.findByIdAndUserId request.orderId request.userId with
    | none =>
      some (s, .thrown (.rpc ⟨HttpStatus.notFound, OrdersErrors.orderNotFound request.orderId⟩))
    | some order =>
      if order.status = .cancelled then
        some (s, .thrown
          (.rpc ⟨HttpStatus.badRequest, OrdersErrors.orderAlreadyCancelled request.orderId⟩))
      else if order.status = .filled then
        some (s, .thrown
          (.rpc ⟨HttpStatus.badRequest, OrdersErrors.orderAlreadyFilled request.orderId⟩))
      else some (s, .removing order)
  | .removing order, .statement =>
    some (setValkey s (s.store.valkey.zremOrder request.orderId order.pair order.side),
      .deleting order)
  | .deleting order, .statement =>
    some (setValkey s (s.store.valkey.delOrder request.orderId), .sequencing order)
  | .sequencing order, .statement =>
    let (valkey, sequenceId) := s.store.valkey.nextSequence order.pair
    some (setValkey s valkey, .totalling order sequenceId)
  | .totalling order sequenceId, .statement =>
    let levelTotalQuantity :=
      s.store.valkey.getLevelTotalQuantity order.pair order.side order.price
    some (s, .updating levelTotalQuantity sequenceId)
  | .updating levelTotalQuantity sequenceId, .statement =>
    match cancellableOrder s.store.db request with
    | none =>
      some (rollback p s, .thrown
        (.rpc ⟨HttpStatus.badRequest, OrdersErrors.orderAlreadyFilled request.orderId⟩))
    | some order =>
      if s.locks.Available p request.orderId then
        some (takeLock p s request.orderId,
          .recording { order with status := .cancelled } levelTotalQuantity sequenceId)
      else none
  | .recording updated levelTotalQuantity sequenceId, .statement =>
    some (s, .committing updated (orderCancelledEvent updated levelTotalQuantity sequenceId))
  | .committing updated event, .statement => some (commit p s [updated] [event], .unlocking updated)
  | .committing updated event, .commitUnacknowledged =>
    some (commit p s [updated] [event], .thrown .infrastructure)
  | .unlocking cancelledOrder, .statement =>
    match unlockAmount cancelledOrder with
    | .digits 0 (_ + 1) =>
      some (send s (unlockRequest request cancelledOrder), .awaitingUnlock cancelledOrder)
    | _ => some (s, .returned (mapOrderToItem cancelledOrder))
  | .awaitingUnlock cancelledOrder, .reply _ =>
    some (s, .returned (mapOrderToItem cancelledOrder))
  | .unlocking _, .abort => none
  | .awaitingUnlock _, .abort => none
  | .returned _, .abort => none
  | .thrown _, .abort => none
  | _, .abort => some (rollback p s, .thrown .infrastructure)
  | _, _ => none

/-! ### The system -/

/-- One step of a process. Each process is one call. -/
def step : Process → Action → Option (Shared × Process)
  | .idle, .createOrder request =>
    match hvalid : validateCreateOrderRequest request with
    | some exception => some (s, .refused exception)
    | none => some (s, .creating ⟨request, hvalid⟩ .checking)
  | .idle, .cancelOrder request => some (s, .cancelling request .finding)
  | .idle, .passTime ms => some (⟨{ s.store with now := s.store.now + ms }, s.locks⟩, .idle)
  | .creating request progress, action =>
    (creatingStep p s request.val progress action).map fun r => (r.1, .creating request r.2)
  | .cancelling request progress, action =>
    (cancellingStep p s request progress action).map fun r => (r.1, .cancelling request r.2)
  | _, _ => none

abbrev OrdersConfig := Config Shared Process

def ordersSystem : System Shared Process Action := ⟨step⟩

/-- Empty stores and nothing under way. -/
def initial : OrdersConfig :=
  ⟨⟨⟨.empty, .empty, [], 0⟩, LockTable.free⟩, fun _ => .idle⟩

end EtherTrade.OrdersTransactions
