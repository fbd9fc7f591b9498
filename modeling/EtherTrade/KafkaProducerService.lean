import EtherTrade.InsertionOrderedMaps
import EtherTrade.JsonTexts
import EtherTrade.OutboxRelayService

/-!
# The producer of messages

`sendBatch` groups records by topic, in a map that keeps its keys in the order in which they
first came, and hands each topic's messages to Kafka in one request.
-/

namespace EtherTrade.KafkaProducerService

open JsonValues JsonTexts InsertionOrderedMaps
open OutboxRelayService (KafkaProducerRecord)

structure KafkaMessage where
  key : String
  value : String
  headers : List (String × String)
  deriving DecidableEq, Repr

structure TopicMessages where
  topic : String
  messages : List KafkaMessage
  deriving DecidableEq, Repr

/-- The client's producer. It throws an error with a message when it cannot connect or send. -/
structure Producer where
  isConnected : Bool
  connect : Except String PUnit
  sendBatch : List TopicMessages → Except String PUnit

variable (numberText : JsonNumber → String)

/-- A text is sent as it is. -/
def stringValue : Json → String
  | .string text => text
  | value => String.ofList (stringify numberText value)

def message (record : KafkaProducerRecord Json) : KafkaMessage :=
  ⟨record.key, stringValue numberText record.value, record.headers⟩

def topicMessagesMap (records : List (KafkaProducerRecord Json)) :
    List (String × List KafkaMessage) :=
  records.foldl (fun entries record =>
    let existing := (get entries record.topic).getD []
    set entries record.topic (existing ++ [message numberText record])) []

def topicMessages (records : List (KafkaProducerRecord Json)) : List TopicMessages :=
  (topicMessagesMap numberText records).map fun entry => ⟨entry.1, entry.2⟩

/-- The connection is made first, where there is none. -/
def Producer.hand (producer : Producer) (batches : List TopicMessages) : Except String PUnit := do
  if !producer.isConnected then producer.connect
  producer.sendBatch batches

def sendBatch (producer : Producer) (records : List (KafkaProducerRecord Json)) :
    Except String PUnit :=
  if records.isEmpty then .ok ⟨⟩ else producer.hand (topicMessages numberText records)

end EtherTrade.KafkaProducerService
