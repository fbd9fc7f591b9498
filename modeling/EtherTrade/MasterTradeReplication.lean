import EtherTrade.CopyRatioCalculator
import EtherTrade.CopyTradingSchema
import EtherTrade.DistributedLockService
import EtherTrade.OrdersTransactions

/-!
# The replication of master trades

`handleMessage` of the replication consumer as interleaved processes, one statement, Valkey
command or call at a time. The subscribers of a batch are replicated to concurrently, each
by a worker of its process. The orders service is the orders system, whose calls run on
their own once they are sent; its clock is the clock of the locks.

Any statement, command or call may fail, also after it took effect, and any process may stop
after any step. Messages are delivered in any order and any number of times. What is not
replication registers masters, changes subscriptions and makes other calls to the orders
service. A balance that `getMasterOrFollowerBalance` answers may be any number.

`activeMasters` is the map of the instance that takes the next message. It is filled at the
start of an instance, which may fail, and by the registrations that this instance serves, so
it changes on its own and need not agree with the table of masters.
-/

namespace EtherTrade.MasterTradeReplication

open DecimalNumbers KeyedRows AccountsSchema OrdersTransactions
open OrdersSchema hiding TradeExecutedEvent
open InterleavedProcesses CopyTradingSchema CopyRatioCalculator DistributedLockService
open TradeSettlement (TradingSymbol TradeExecutedEvent DomainEventEnvelope
  KafkaBatchConsumerPayload invalidEventSchema messageAction tradeExecuted)

/-! ### Batches -/

/-- The slices of `chunkSize` items. -/
def chunks {α : Type} (items : List α) (chunkSize : ℕ) : List (List α) :=
  (List.range ((items.length + chunkSize - 1) / chunkSize)).map fun i =>
    (items.drop (i * chunkSize)).take chunkSize

def chunkArray {α : Type} (items : List α) (chunkSize : ℕ) : Except String (List (List α)) :=
  if chunkSize = 0 then .error "Chunk size must be greater than 0"
  else .ok (chunks items chunkSize)

namespace CopyTradingConstants

def defaultLockTtlMs : ℕ := 10000

def followerBatchConcurrency : ℕ := 50

def followerLock (followerUserId : Uuid) : String := "lock:copy:follower:" ++ followerUserId

def copyTradingReplication : String := "copy-trading-replication-group"

def belowMinLot : String := "BELOW_MIN_LOT"

def orderSubmissionFailed : String := "ORDER_SUBMISSION_FAILED"

end CopyTradingConstants

open CopyTradingConstants

/-! ### The store -/

/-- A subscription and a trade of its master. -/
abbrev Copy := Uuid × Uuid

/-- `calls` says which calls of the orders service were made to copy a trade. -/
structure CopyStore where
  activeMasters : Uuid → Option Uuid
  masters : List MasterTrader
  db : CopyTradingDb
  locks : LockEntries
  orders : OrdersConfig
  calls : ℕ → Option Copy

def CopyStore.now (s : CopyStore) : ℕ := s.orders.shared.store.now

structure ReplicationSideTask where
  masterId : Uuid
  masterUserId : Uuid
  side : OrderSide
  masterPrice : BigNumber
  masterQuantity : BigNumber
  pair : TradingSymbol
  tradeId : Uuid
  deriving DecidableEq, Repr

/-! ### Progress of a message -/

/-- What a worker that holds its lock does next. -/
inductive Copying where
  | sizing
  | skipping (targetQuantity : NumberText)
  | ordering (request : CreateOrderRequest)
  | awaiting (request : CreateOrderRequest) (call : ℕ)
  | completing (request : CreateOrderRequest) (followerOrderId : Uuid)
  | failing (request : CreateOrderRequest) (failureReason : String)
  | releasing
  deriving DecidableEq, Repr

/-- `replicateForSubscriber`. Whether it settles with an error is seen by nobody. -/
inductive Replicating where
  | acquiring
  | holding (lockToken : Uuid) (copying : Copying)
  | settled
  deriving DecidableEq, Repr

structure Worker where
  subscriber : CopySubscription
  progress : Replicating
  deriving DecidableEq, Repr

def Worker.start (subscriber : CopySubscription) : Worker := ⟨subscriber, .acquiring⟩

inductive Point where
  | deduplicating
  | following
  | balancing (task : ReplicationSideTask) (subscribers : List CopySubscription)
  | running (task : ReplicationSideTask) (masterBalance : BigNumber) (workers : List Worker)
      (batches : List (List CopySubscription))
  | duplicate
  | marked (acknowledged : Bool)
  | failed (message : String)
  deriving DecidableEq, Repr

/-- A message that is handled: the sides that are left, and the subscribers that
`findActiveByMaster` has answered so far. -/
structure Handling where
  envelope : DomainEventEnvelope
  trade : TradeExecutedEvent
  tasks : List ReplicationSideTask
  followed : List CopySubscription
  point : Point
  deriving DecidableEq, Repr

inductive Process where
  | idle
  | ignored
  | thrown (message : String)
  | handling (h : Handling)
  | stopped
  deriving DecidableEq, Repr

inductive WorkerAction where
  | acquire (lockToken : Uuid)
  | acquireUnacknowledged (lockToken : Uuid)
  | statement
  | insert (newId : Uuid)
  | insertUnacknowledged (newId : Uuid)
  | call (call : ℕ)
  | reply
  | fail (message : String)
  deriving DecidableEq, Repr

/-- What a process can do: take a message, run its next statement, receive a balance, let a
worker act, send a heartbeat, fail or stop. The rest of the world acts too. -/
inductive Action where
  | deliver (payload : KafkaBatchConsumerPayload)
  | statement
  | commitUnacknowledged
  | balance (available : BigNumber)
  | worker (i : ℕ) (action : WorkerAction)
  | heartbeat
  | fail (message : String)
  | stop
  | activateMaster (userId : Uuid) (masterId : Option Uuid)
  | createMaster (row : MasterTrader)
  | createSubscription (row : CopySubscription)
  | reactivateSubscription (id : Uuid) (allocatedBalance maxSlippagePercent : ℤ)
  | updateStatus (id : Uuid) (status : SubscriptionStatus)
  | orders (event : Event OrdersTransactions.Action)
  deriving DecidableEq, Repr

variable (s : CopyStore)

def setDb (db : CopyTradingDb) : CopyStore := { s with db }

def setLocks (locks : LockEntries) : CopyStore := { s with locks }

/-! ### replicateForSubscriber -/

section Replicate

variable (task : ReplicationSideTask) (masterBalance : BigNumber) (subscriber : CopySubscription)

def targetQuantity : NumberText :=
  match task.side with
  | .buy => calculateBuyQuantity task.masterQuantity masterBalance
      (.finite (subscriber.allocatedBalance / scale))
  | .sell =>
    let subPos := s.db.getSubscriptionPosition subscriber.id task.pair
    let netPosition := calculateSubPosition subPos.1 subPos.2
    calculateSellQuantity task.masterQuantity masterBalance netPosition.value

def protectedPrice : NumberText :=
  calculateProtectedPrice task.masterPrice (.finite (subscriber.maxSlippagePercent / 100)) task.side

def copyKey : String := "copy:" ++ task.tradeId ++ ":" ++ subscriber.followerUserId

/-- The order that copies the trade. -/
def copyRequest (quantity : NumberText) : CreateOrderRequest where
  userId := subscriber.followerUserId
  pair := task.pair
  side := task.side
  type := .limit
  price := protectedPrice task subscriber
  amount := quantity
  idempotencyKey := copyKey task subscriber

/-- A history row of the trade for the subscriber. -/
def record (quantity price : BigNumber) (status : CopyOrderStatus) (followerOrderId : Option Uuid)
    (failureReason : Option String) : NewCopyOrderHistory where
  subscriptionId := subscriber.id
  masterTradeId := task.tradeId
  followerOrderId
  pair := task.pair
  masterSide := task.side
  replicatedQuantity := quantity
  replicatedPrice := price
  status
  failureReason

/-- The row a worker is about to insert. -/
def pendingRecord : Copying → Option NewCopyOrderHistory
  | .skipping quantity =>
    some (record task subscriber quantity.value task.masterPrice .skipped none (some belowMinLot))
  | .completing request followerOrderId =>
    some (record task subscriber request.amount.value request.price.value .completed
      (some followerOrderId) none)
  | .failing request failureReason =>
    some (record task subscriber request.amount.value request.price.value .failed none
      (some failureReason))
  | _ => none

def failureReason (message : String) : String :=
  if message = "" then orderSubmissionFailed else message

/-- What follows an error: a failed order is recorded, and so is an order whose row failed.
Any other error ends the replication. -/
def afterError (message : String) : Copying → Copying
  | .ordering request => .failing request (failureReason message)
  | .awaiting request _ => .failing request (failureReason message)
  | .completing request _ => .failing request (failureReason message)
  | _ => .releasing

/-- The response of a call that has returned. -/
def response (call : ℕ) : Option OrderItem :=
  match s.orders.procs call with
  | .creating _ (.returned item) => some item
  | _ => none

def copyStep : Copying → WorkerAction → Option (CopyStore × Copying)
  | .sizing, .statement =>
    let quantity := targetQuantity s task masterBalance subscriber
    if isDust task.pair quantity.value then some (s, .skipping quantity)
    else some (s, .ordering (copyRequest task subscriber quantity))
  | .sizing, .fail message =>
    -- only the position of a sale is read from the database
    match task.side with
    | .buy => none
    | .sell => some (s, afterError message .sizing)
  | .ordering request, .call call =>
    -- each call is a process of its own
    if s.orders.procs call = .idle then
      (ordersSystem.next s.orders ⟨call, .createOrder request⟩).map fun orders =>
        ({ s with
            orders
            calls := Function.update s.calls call (some (subscriber.id, task.tradeId)) },
          .awaiting request call)
    else none
  | .awaiting request call, .reply =>
    (response s call).map fun item => (s, .completing request item.orderId)
  | .releasing, _ => none
  | copying, .insert newId => do
    let db ← s.db.createHistory (← pendingRecord task subscriber copying) newId
    return (setDb s db, .releasing)
  | copying, .insertUnacknowledged newId => do
    let db ← s.db.createHistory (← pendingRecord task subscriber copying) newId
    return (setDb s db, afterError "" copying)
  | copying, .fail message => some (s, afterError message copying)
  | _, _ => none

def replicateStep : Replicating → WorkerAction → Option (CopyStore × Replicating)
  | .acquiring, .acquire lockToken =>
    match acquireLock s.locks s.now (followerLock subscriber.followerUserId) lockToken
        defaultLockTtlMs with
    | none => some (s, .settled)
    | some locks => some (setLocks s locks, .holding lockToken .sizing)
  | .acquiring, .acquireUnacknowledged lockToken =>
    (acquireLock s.locks s.now (followerLock subscriber.followerUserId) lockToken
      defaultLockTtlMs).map fun locks => (setLocks s locks, .settled)
  | .acquiring, .fail _ => some (s, .settled)
  | .holding lockToken .releasing, .statement =>
    some (setLocks s (releaseLock s.locks s.now (followerLock subscriber.followerUserId) lockToken),
      .settled)
  | .holding _ .releasing, .fail _ => some (s, .settled)
  | .holding lockToken copying, action =>
    (copyStep s task masterBalance subscriber copying action).map fun r =>
      (r.1, .holding lockToken r.2)
  | _, _ => none

end Replicate

/-! ### handleMessage -/

def sideTask (trade : TradeExecutedEvent) (side : OrderSide) (masterUserId masterId : Uuid) :
    ReplicationSideTask where
  masterId
  masterUserId
  side
  masterPrice := trade.price
  masterQuantity := trade.quantity
  pair := trade.symbol
  tradeId := trade.tradeId

/-- The sides of a trade that a master is on. -/
def sideTasks (trade : TradeExecutedEvent) : List ReplicationSideTask :=
  ((s.activeMasters trade.buyerUserId).map (sideTask trade .buy trade.buyerUserId)).toList ++
    ((s.activeMasters trade.sellerUserId).map (sideTask trade .sell trade.sellerUserId)).toList

/-- The checks before any statement. -/
def acceptMessage (payload : KafkaBatchConsumerPayload) : Process :=
  match payload.value with
  | none => .thrown (invalidEventSchema payload)
  | some envelope =>
    match envelope.payload with
    | none => .thrown (invalidEventSchema payload)
    | some trade =>
      if envelope.eventId = "" then .thrown (invalidEventSchema payload)
      else if messageAction payload envelope ≠ "" ∧
          messageAction payload envelope ≠ tradeExecuted then .ignored
      else if sideTasks s trade = [] then .ignored
      else .handling ⟨envelope, trade, sideTasks s trade, [], .deduplicating⟩

/-- `executeInBatches` with the batches that are left. -/
def nextBatch (task : ReplicationSideTask) (masterBalance : BigNumber) :
    List (List CopySubscription) → Point
  | [] => .following
  | batch :: batches => .running task masterBalance (batch.map Worker.start) batches

def markProcessed (envelope : DomainEventEnvelope) : CopyStore :=
  setDb s (s.db.markProcessed ⟨envelope.eventId, envelope.eventType, copyTradingReplication⟩)

def handleStep (h : Handling) : Point → Action → Option (CopyStore × Handling)
  | .deduplicating, .statement =>
    let point := if s.db.isProcessed h.envelope.eventId then .duplicate else .following
    some (s, { h with point })
  | .following, .statement =>
    match h.tasks with
    | [] => some (markProcessed s h.envelope, { h with point := .marked true })
    | task :: tasks =>
      let subscribers := s.db.findActiveByMaster task.masterId
      let point := if subscribers = [] then .following else .balancing task subscribers
      some (s, { h with tasks, followed := h.followed ++ subscribers, point })
  | .following, .commitUnacknowledged =>
    match h.tasks with
    | [] => some (markProcessed s h.envelope, { h with point := .marked false })
    | _ => none
  | .balancing task subscribers, .balance available =>
    match chunkArray subscribers followerBatchConcurrency with
    | .ok batches => some (s, { h with point := nextBatch task available batches })
    | .error message => some (s, { h with point := .failed message })
  | .running task masterBalance workers batches, .worker i action => do
    let worker ← workers[i]?
    let (s', progress) ← replicateStep s task masterBalance worker.subscriber worker.progress action
    let workers := workers.set i { worker with progress }
    return (s', { h with point := .running task masterBalance workers batches })
  | .running task masterBalance workers batches, .heartbeat =>
    if workers.all fun worker => worker.progress = .settled then
      some (s, { h with point := nextBatch task masterBalance batches })
    else none
  | .running _ _ workers _, .fail message =>
    if workers.all fun worker => worker.progress = .settled then
      some (s, { h with point := .failed message })
    else none
  | .deduplicating, .fail message => some (s, { h with point := .failed message })
  | .following, .fail message => some (s, { h with point := .failed message })
  | _, _ => none

/-- One step of a process. Each process handles one delivery. -/
def step : Process → Action → Option (CopyStore × Process)
  | .idle, .deliver payload => some (s, acceptMessage s payload)
  | .idle, .activateMaster userId masterId =>
    some ({ s with activeMasters := Function.update s.activeMasters userId masterId }, .idle)
  | .idle, .createMaster row =>
    (createMaster s.masters row).map fun masters => ({ s with masters }, .idle)
  | .idle, .createSubscription row =>
    (s.db.createSubscription row).map fun db => (setDb s db, .idle)
  | .idle, .reactivateSubscription id allocatedBalance maxSlippagePercent =>
    some (setDb s (s.db.reactivateSubscription id allocatedBalance maxSlippagePercent), .idle)
  | .idle, .updateStatus id status => some (setDb s (s.db.updateStatus id status), .idle)
  | .idle, .orders event =>
    (ordersSystem.next s.orders event).map fun orders => ({ s with orders }, .idle)
  | .handling _, .stop => some (s, .stopped)
  | .handling h, action => (handleStep s h h.point action).map fun r => (r.1, .handling r.2)
  | _, _ => none

abbrev CopyConfig := Config CopyStore Process

abbrev CopyTransition := System.Transition CopyStore Process Action

def replicationSystem : System CopyStore Process Action := ⟨fun _ => step⟩

/-- Empty stores and nothing under way. -/
def initial : CopyConfig :=
  ⟨⟨fun _ => none, [], .empty, fun _ => none, OrdersTransactions.initial, fun _ => none⟩,
    fun _ => .idle⟩

end EtherTrade.MasterTradeReplication
