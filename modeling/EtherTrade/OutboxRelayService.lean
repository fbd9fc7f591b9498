import EtherTrade.BalancesService
import EtherTrade.DatabaseTransactions
import EtherTrade.JsonValues
import EtherTrade.OutboxRelay

/-!
# The relay's calls of processBatch

The rows of the outbox of the orders service in full, and `processBatch` as the statements that it
makes of them. A worker skips the rows that others hold, and no two hold one row, so the calls of
all workers count one after the other, each on some of the pending rows.
-/

namespace EtherTrade.OutboxRelayService

open AccountsSchema KeyedRows BalancesService DatabaseTransactions JsonValues
open OutboxRelay (OutboxStatus batchSize)

inductive OutboxAggregateType where
  | order
  | trade
  | deposit
  | withdrawal
  deriving DecidableEq, Repr

/-- A row of `outbox_events`. The time of its last change is left out; nothing reads it. -/
structure OutboxEvent (π : Type) where
  id : Uuid
  aggregateType : OutboxAggregateType
  aggregateId : String
  partitionKey : String
  eventType : String
  payload : π
  status : OutboxStatus
  retryCount : ℕ
  lastError : Option String
  traceparent : Option String
  tracestate : Option String
  createdAt : ℕ
  deriving DecidableEq, Repr

def OutboxEvent.publish {π : Type} (event : OutboxEvent π) : OutboxEvent π :=
  { event with status := .published }

structure KafkaProducerRecord (π : Type) where
  topic : String
  key : String
  value : π
  headers : List (String × String)
  deriving DecidableEq, Repr

def kafkaDomainOrders : String := "orders"

def kafkaDomainMatching : String := "matching"

def kafkaClientOrders : String := "orders-service"

def getKafkaTopicName (environment domain : String) : String :=
  (trim environment).toLower ++ "." ++ (trim domain).toLower ++ ".lifecycle"

/-- The service's environment, and the JSON value that a payload of the outbox is. -/
structure Relay (π : Type) where
  appEnv : String
  json : π → Json

/-- `'action' in event.payload ? event.payload.action : undefined`, for a payload that is an
object. Actions are texts. -/
def payloadAction (payload : Json) : Option String :=
  match payload.get "action" with
  | some (.string action) => some action
  | _ => none

namespace Relay

variable {π : Type} (relay : Relay π)

/-- An empty text counts as missing. -/
def nonEmpty (text : Option String) : Option String := text.filter fun text => text ≠ ""

def topic (event : OutboxEvent π) : String :=
  getKafkaTopicName relay.appEnv
    (if event.aggregateType = .order then kafkaDomainOrders else kafkaDomainMatching)

def eventAction (event : OutboxEvent π) : String :=
  (nonEmpty (payloadAction (relay.json event.payload))).getD event.eventType.toUpper

def headers (event : OutboxEvent π) : List (String × String) :=
  [("x-origin-service", kafkaClientOrders), ("x-event-id", event.id),
    ("x-aggregate-id", event.aggregateId), ("x-action", relay.eventAction event)] ++
  ((nonEmpty event.traceparent).map fun traceparent => ("traceparent", traceparent)).toList ++
  ((nonEmpty event.tracestate).map fun tracestate => ("tracestate", tracestate)).toList

def record (event : OutboxEvent π) : KafkaProducerRecord π :=
  ⟨relay.topic event, event.partitionKey, event.payload, relay.headers event⟩

end Relay

/-! ### The repository -/

variable {π : Type}

abbrev Outbox (π : Type) := List (OutboxEvent π)

/-- `UPDATE outbox_events SET … WHERE …`. -/
def update (outbox : Outbox π) (ids : List Uuid) (set : OutboxEvent π → OutboxEvent π) : Outbox π :=
  outbox.map fun event => if event.id ∈ ids then set event else event

/-- `SELECT … WHERE status = 'PENDING' ORDER BY created_at LIMIT … FOR UPDATE SKIP LOCKED` may
return these rows, when others hold the rest. -/
def IsPendingBatch (outbox : Outbox π) (pendingEvents : List (OutboxEvent π)) : Prop :=
  (∀ event ∈ pendingEvents, event ∈ outbox ∧ event.status = .pending) ∧
    (pendingEvents.map OutboxEvent.id).Nodup ∧ pendingEvents.length ≤ batchSize ∧
    pendingEvents.Pairwise fun event later => event.createdAt ≤ later.createdAt

instance [DecidableEq π] (outbox : Outbox π) (pendingEvents : List (OutboxEvent π)) :
    Decidable (IsPendingBatch outbox pendingEvents) :=
  inferInstanceAs (Decidable (_ ∧ _ ∧ _ ∧ _))

def markAsPublished (ids : List Uuid) : Statements (Outbox π) String PUnit :=
  modify fun outbox => update outbox ids OutboxEvent.publish

def recordRetryAttempt (id : Uuid) (error : String) : Statements (Outbox π) String PUnit :=
  modify fun outbox => update outbox [id] fun event =>
    { event with lastError := some error, retryCount := event.retryCount + 1 }

/-! ### The service -/

/-- The producer takes the records, or throws an error with a message. -/
abbrev SendBatch (π : Type) := List (KafkaProducerRecord π) → Except String PUnit

/-- One call, on the rows that its query returns. -/
def processBatch (relay : Relay π) (sendBatch : SendBatch π) (pendingEvents : List (OutboxEvent π)) :
    Statements (Outbox π) String ℕ :=
  transaction <|
    if pendingEvents.isEmpty then pure 0
    else
      let records := pendingEvents.map relay.record
      let publishedIds := pendingEvents.map OutboxEvent.id
      tryCatch
        (do
          MonadExcept.ofExcept (sendBatch records)
          markAsPublished publishedIds
          pure records.length)
        fun publishErr => do
          forM publishedIds fun id => recordRetryAttempt id publishErr
          throw publishErr

/-- Another transaction commits new events, or a worker makes a call. -/
inductive Action (π : Type) where
  | insertMany (events : List (OutboxEvent π))
  | processBatch (pendingEvents : List (OutboxEvent π)) (sendBatch : SendBatch π)

def step [DecidableEq π] (relay : Relay π) (outbox : Outbox π) : Action π → Option (Outbox π)
  | .insertMany events =>
    if (events.map OutboxEvent.id).Nodup ∧ ∀ event ∈ events, event.status = .pending ∧
        (lookup OutboxEvent.id outbox event.id).isNone then some (outbox ++ events)
    else none
  | .processBatch pendingEvents sendBatch =>
    if IsPendingBatch outbox pendingEvents then
      some (exec (processBatch relay sendBatch pendingEvents) outbox).2
    else none

def run [DecidableEq π] (relay : Relay π) (outbox : Outbox π) (actions : List (Action π)) :
    Option (Outbox π) :=
  actions.foldlM (step relay) outbox

end EtherTrade.OutboxRelayService
