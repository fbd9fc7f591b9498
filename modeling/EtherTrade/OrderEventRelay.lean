import EtherTrade.OrdersTransactions
import EtherTrade.OutboxRelay

/-!
# Orders and the relay of their events

createOrder and cancelOrder calls and the workers that relay what they commit, as
interleaved processes. A transaction begins at some moment before its first statement, and
what it commits carries that time. The events of a transaction stand in the outbox from
its commit on.
-/

namespace EtherTrade.OrderEventRelay

open AccountsSchema OrdersSchema InterleavedProcesses ResourceLocks OutboxRelay
open TradeSettlement (TradingSymbol)

structure Shared where
  orders : OrdersTransactions.Shared
  outbox : OutboxRelay.Shared OutboxEvent

/-- A process is one call, with the time at which its transaction began, or a worker. -/
inductive Process where
  | ordering (call : OrdersTransactions.Process) (beganAt : Option ℕ)
  | relaying (worker : OutboxRelay.Process OutboxEvent)
  deriving DecidableEq, Repr

/-- A call begins its transaction, or takes a step; the events that it commits get ids. -/
inductive Action where
  | beginTransaction
  | order (action : OrdersTransactions.Action) (eventIds : List Uuid)
  | relay (action : OutboxRelay.Action OutboxEvent)
  deriving DecidableEq, Repr

namespace Process

def call : Process → OrdersTransactions.Process
  | .ordering call _ => call
  | .relaying _ => .idle

def worker : Process → OutboxRelay.Process OutboxEvent
  | .ordering _ _ => .idle
  | .relaying worker => worker

def beganAt : Process → Option ℕ
  | .ordering _ beganAt => beganAt
  | .relaying _ => none

end Process

/-- The next statement is the first one of a transaction. -/
def opensTransaction : OrdersTransactions.Process → Bool
  | .creating _ (.placing _ .inserting) => true
  | .cancelling _ (.updating _ _) => true
  | _ => false

/-- The topics of the lifecycle of orders and of matching. -/
inductive Topic where
  | orders
  | matching
  deriving DecidableEq, Repr

/-- The topic that `processBatch` sends an event to. -/
def topicOf (event : OutboxEvent) : Topic :=
  match event.aggregateType with
  | .order => .orders
  | .trade => .matching

/-- The sequence id of an event, if it has one, and the pair it counts for. -/
def sequenceId (event : OutboxEvent) : Option (TradingSymbol × ℕ) :=
  match event.payload with
  | .orderPlaced payload => some (payload.symbol, payload.sequenceId)
  | .tradeExecuted payload => some (payload.symbol, payload.sequenceId)
  | .orderCancelled payload => some (payload.symbol, payload.sequenceId)
  | .orderFilled _ => none

/-- The rows that `insertMany` writes. -/
def outboxRows (eventIds : List Uuid) (events : List OutboxEvent) (createdAt : ℕ) :
    List (OutboxRow OutboxEvent) :=
  List.zipWith (fun id event => ⟨id, event, .pending, createdAt⟩) eventIds events

variable (p : ℕ) (s : Shared)

/-- A step of a call. What it commits is added to the outbox. -/
def orderingStep (call : OrdersTransactions.Process) (beganAt : Option ℕ)
    (action : OrdersTransactions.Action) (eventIds : List Uuid) : Option (Shared × Process) :=
  if opensTransaction call ∧ beganAt = none ∧ action ≠ .abort then none
  else
    (OrdersTransactions.step p s.orders call action).bind fun r =>
      let events :=
        r.1.store.db.outboxEvents.drop s.orders.store.db.outboxEvents.length
      if eventIds.length = events.length then
        (OutboxRelay.step p s.outbox .idle
            (.insertMany (outboxRows eventIds events (beganAt.getD 0)))).map
          fun o => (⟨r.1, o.1⟩, .ordering r.2 beganAt)
      else none

/-- A worker inserts no events. -/
def relayStep (worker : OutboxRelay.Process OutboxEvent) :
    OutboxRelay.Action OutboxEvent → Option (Shared × Process)
  | .insertMany _ => none
  | action => (OutboxRelay.step p s.outbox worker action).map fun r =>
      (⟨s.orders, r.1⟩, .relaying r.2)

def step : Process → Action → Option (Shared × Process)
  | .ordering call none, .beginTransaction =>
    if opensTransaction call then some (s, .ordering call (some s.orders.store.now)) else none
  | .ordering call beganAt, .order action eventIds =>
    orderingStep p s call beganAt action eventIds
  | .ordering .idle _, .relay action => relayStep p s .idle action
  | .relaying worker, .relay action => relayStep p s worker action
  | _, _ => none

abbrev EventConfig := Config Shared Process

def eventSystem : System Shared Process Action := ⟨step⟩

/-- Empty stores and nothing under way. -/
def initial : EventConfig :=
  ⟨⟨OrdersTransactions.initial.shared, OutboxRelay.initial.shared⟩, fun _ => .ordering .idle none⟩

end EtherTrade.OrderEventRelay
