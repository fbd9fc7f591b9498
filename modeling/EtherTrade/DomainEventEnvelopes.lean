import Mathlib.Data.Rat.Cast.Defs
import EtherTrade.KafkaToWebSocketBridge
import EtherTrade.OutboxRelayService

/-!
# Envelopes of domain events

What the relay of a service sends for an event of its outbox, and what the bridge publishes when
the message reaches it. The ids and times that the events of the model leave out are part of the
context of a delivery; they may be any.
-/

namespace EtherTrade.DomainEventEnvelopes

open AccountsSchema JsonValues KafkaConsumer KafkaToWebSocketBridge
open OutboxRelayService (getKafkaTopicName)
open TradesSettlementConsumer (KafkaHeaders.action)

/-- What there is to a delivery besides its event. -/
structure Context where
  eventId : Uuid
  timestamp : ℕ
  correlationId : Uuid
  traceparent : Option String
  tracestate : Option String
  partition : ℕ
  offset : String
  traceId : Option String
  deriving DecidableEq, Repr

/-- An event of an outbox with the names it goes by, and its payload as of a time. -/
structure DomainEvent where
  aggregateId : String
  partitionKey : String
  action : String
  eventType : String
  payload : Json → Json

/-- A service that relays events: its domain, and its name as a client of the broker. -/
structure Origin where
  domain : String
  clientId : String
  deriving DecidableEq, Repr

variable (appEnv : String) (origin : Origin) (context : Context) (id : Uuid) (event : DomainEvent)

def timestampOf : Json := .number (.finite context.timestamp)

def envelope : Json :=
  .object [("eventId", .string context.eventId), ("action", .string event.action),
    ("eventType", .string event.eventType), ("aggregateId", .string event.aggregateId),
    ("partitionKey", .string event.partitionKey), ("timestamp", timestampOf context),
    ("correlationId", .string context.correlationId),
    ("payload", event.payload (timestampOf context))]

/-- What `processBatch` sends for the row of an event; the payload has an action. -/
def producerRecord : KafkaProducerRecord where
  topic := getKafkaTopicName appEnv origin.domain
  key := event.partitionKey
  value := envelope context event
  headers := List.toAList <| ([("x-origin-service", origin.clientId), ("x-event-id", id),
      ("x-aggregate-id", event.aggregateId), (KafkaHeaders.action, event.action)] ++
    ((OutboxRelayService.Relay.nonEmpty context.traceparent).map fun text =>
      ("traceparent", text)).toList ++
    ((OutboxRelayService.Relay.nonEmpty context.tracestate).map fun text =>
      ("tracestate", text)).toList).map fun header => ⟨header.1, header.2⟩

/-- The message as it reaches a consumer. -/
def received (record : KafkaProducerRecord) : KafkaBatchConsumerPayload where
  topic := record.topic
  partition := context.partition
  offset := context.offset
  key := some record.key
  value := record.value
  headers := record.headers

/-- What the bridge publishes for an event. Where a text fails, so does the bridge. -/
def bridgeMessages (numberText : JsonNumber → String) : List PubSubMsg :=
  ((handleMessage numberText context.traceId
    (received context (producerRecord appEnv origin context id event))).takeWhile
      Option.isSome).filterMap fun message => message

end EtherTrade.DomainEventEnvelopes
