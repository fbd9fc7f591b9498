import EtherTrade.KafkaProducerService
import EtherTrade.OutboxRetryLaws

/-!
# Batches of the relay

What Kafka is handed for the events that a call of `processBatch` has fetched: one message for
each, in the topic of its aggregate and there in the order of the events.
-/

namespace EtherTrade.RelayBatchLaws

open JsonValues InsertionOrderedMaps OutboxRelayService KafkaProducerService DatabaseTransactions

variable (numberText : JsonNumber → String) (relay : Relay Json)

/-- The message of an event. -/
def messageOf (event : OutboxEvent Json) : KafkaMessage :=
  ⟨event.partitionKey, stringValue numberText event.payload, relay.headers event⟩

/-- The messages of a topic, over all batches that have it. -/
def messagesOf (batches : List TopicMessages) (topic : String) : List KafkaMessage :=
  (batches.filter fun batch => batch.topic = topic).flatMap (·.messages)

/-- Every event has one message, in its topic, and no topic has two batches or an empty one. -/
structure Preserved (events : List (OutboxEvent Json)) (batches : List TopicMessages) : Prop where
  topics : (batches.map TopicMessages.topic).Nodup
  nonempty : ∀ batch ∈ batches, batch.messages ≠ []
  ordered : ∀ topic, messagesOf batches topic =
    (events.filter fun event => relay.topic event = topic).map (messageOf numberText relay)
  once :
    (batches.flatMap fun batch => batch.messages.map fun message => (batch.topic, message)).Perm
      (events.map fun event => (relay.topic event, messageOf numberText relay event))

variable (events : List (OutboxEvent Json))

theorem topicMessages_records : topicMessages numberText (events.map relay.record) =
    (group relay.topic (messageOf numberText relay) events).map fun entry =>
      ⟨entry.1, entry.2⟩ := by
  rw [topicMessages, topicMessagesMap, List.foldl_map]
  rfl

theorem preserved_topicMessages :
    Preserved numberText relay events (topicMessages numberText (events.map relay.record)) := by
  have keys := nodup_keys_group relay.topic (messageOf numberText relay) events
  rw [topicMessages_records]
  constructor
  case topics =>
    rw [List.map_map]
    exact keys
  case nonempty =>
    rintro batch hmem
    obtain ⟨⟨topic, messages⟩, hentry, rfl⟩ := List.mem_map.mp hmem
    exact ((mem_group _ _).mp hentry).1
  case ordered =>
    intro topic
    have found := flatMap_filter_key keys topic
    rw [get_group] at found
    rw [messagesOf, List.filter_map, List.flatMap_map]
    refine found.trans ?_
    split_ifs with none
    · rw [none]
      rfl
    · rfl
  case once =>
    rw [List.flatMap_map]
    exact ungroup_group _ _ events

/-- Two events share a topic exactly when both or neither belong to an order. -/
theorem topic_eq_iff (a b : OutboxEvent Json) :
    relay.topic a = relay.topic b ↔ (a.aggregateType = .order ↔ b.aggregateType = .order) := by
  have differ : getKafkaTopicName relay.appEnv kafkaDomainOrders ≠
      getKafkaTopicName relay.appEnv kafkaDomainMatching := by
    intro same
    have lengths := congrArg String.length same
    have orders : (BalancesService.trim kafkaDomainOrders).toLower.length = 6 := by decide +kernel
    have matching : (BalancesService.trim kafkaDomainMatching).toLower.length = 8 := by
      decide +kernel
    simp only [getKafkaTopicName, String.length_append, orders, matching] at lengths
    omega
  unfold Relay.topic
  by_cases ha : a.aggregateType = .order <;> by_cases hb : b.aggregateType = .order <;>
    simp [ha, hb, differ, differ.symm]

/-- A header of an event is found under its name. -/
theorem lookup_headers (event : OutboxEvent Json) :
    (relay.headers event).lookup "x-event-id" = some event.id ∧
      (relay.headers event).lookup "x-action" = some (relay.eventAction event) :=
  ⟨rfl, rfl⟩

/-- A call hands Kafka these batches once, and marks the events as published if Kafka takes
them. -/
theorem exec_processBatch (producer : Producer) (outbox : Outbox Json) :
    exec (processBatch relay (sendBatch numberText producer) events) outbox =
      if events = [] then (.ok 0, outbox)
      else match producer.hand (topicMessages numberText (events.map relay.record)) with
        | .ok _ => (.ok events.length,
            update outbox (events.map OutboxEvent.id) OutboxEvent.publish)
        | .error message => (.error message, outbox) := by
  split_ifs with none
  · subst none
    rfl
  have handed : sendBatch numberText producer (events.map relay.record) =
      producer.hand (topicMessages numberText (events.map relay.record)) := by
    rw [sendBatch, if_neg (by simpa using none)]
  cases h : producer.hand (topicMessages numberText (events.map relay.record)) with
  | ok _ => exact OutboxRetryLaws.processBatch_ok none (handed.trans h)
  | error message => exact OutboxRetryLaws.processBatch_error none (handed.trans h)

/-- The relay and the producer together keep every event, with what belongs to it. -/
theorem batches_preserve_events (producer : Producer) (outbox : Outbox Json) :
    let batches := topicMessages numberText (events.map relay.record)
    Preserved numberText relay events batches ∧
      exec (processBatch relay (sendBatch numberText producer) events) outbox =
        (if events = [] then (.ok 0, outbox)
        else match producer.hand batches with
          | .ok _ => (.ok events.length,
              update outbox (events.map OutboxEvent.id) OutboxEvent.publish)
          | .error message => (.error message, outbox)) ∧
      (∀ a b : OutboxEvent Json, relay.topic a = relay.topic b ↔
        (a.aggregateType = .order ↔ b.aggregateType = .order)) ∧
      ∀ event : OutboxEvent Json,
        (messageOf numberText relay event).key = event.partitionKey ∧
        (messageOf numberText relay event).value = stringValue numberText event.payload ∧
        (messageOf numberText relay event).headers.lookup "x-event-id" = some event.id ∧
        (messageOf numberText relay event).headers.lookup "x-action" =
          some (relay.eventAction event) :=
  ⟨preserved_topicMessages numberText relay events,
    exec_processBatch numberText relay events producer outbox, topic_eq_iff relay, fun event =>
    ⟨rfl, rfl, lookup_headers relay event⟩⟩

end EtherTrade.RelayBatchLaws
