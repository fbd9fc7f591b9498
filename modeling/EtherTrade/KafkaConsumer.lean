import Mathlib.Data.List.AList
import Mathlib.Data.List.Infix
import EtherTrade.JsonValues
import EtherTrade.RecordedCalls

/-!
# Batch consumption

`processBatch` of the base consumer, as a computation that calls its handler, the broker
and the producer of dead letters. What each call answers while a message is taken up is
an outcome, which may be anything. Tracing and logging are left out.
-/

namespace EtherTrade.KafkaConsumer

open JsonValues RecordedCalls

abbrev Headers := AList fun _ : String => String

/-- A message value as the broker holds it: the text of a JSON value, or another text. -/
inductive RawValue where
  | json (value : Json)
  | text (text : String)

/-- A header has no value, one, or several under its name. -/
structure KafkaMessage where
  offset : String
  key : Option String
  value : Option RawValue
  headers : List (String × Option (List String))

structure Batch where
  topic : String
  partition : ℕ
  messages : List KafkaMessage

structure KafkaBatchConsumerPayload where
  topic : String
  partition : ℕ
  offset : String
  key : Option String
  value : Json
  headers : Headers

structure KafkaProducerRecord where
  topic : String
  key : String
  value : Json
  headers : Headers

/-- A thrown value: an error; an object, with the text `JSON.stringify` makes of it, if it
makes one; an object it fails on; or a primitive value with its text. -/
inductive Thrown where
  | error (message : String) (stack : Option String)
  | object (json : Option String)
  | unserializable
  | primitive (text : String) (truthy : Bool)
  deriving DecidableEq, Repr

def parseHeaders (headers : List (String × Option (List String))) : Headers :=
  headers.foldl
    (fun parsed header => match header.2 with
      | some values => parsed.insert header.1 (",".intercalate values)
      | none => parsed)
    ∅

def parseValue : Option RawValue → Json
  | none => .null
  | some (.json value) => value
  | some (.text text) => .string text

def Batch.payload (batch : Batch) (message : KafkaMessage) : KafkaBatchConsumerPayload where
  topic := batch.topic
  partition := batch.partition
  offset := message.offset
  key := message.key
  value := parseValue message.value
  headers := parseHeaders message.headers

/-- The text is missing when `JSON.stringify` has no text for an object. -/
def stringifyUnknownError : Thrown → Option String
  | .error message _ => some message
  | .object json => json
  | .unserializable => some "[Unserializable Object]"
  | .primitive text _ => some text

def Thrown.truthy : Thrown → Bool
  | .primitive _ truthy => truthy
  | _ => true

/-- `text.includes(part)` -/
def includes (text part : String) : Bool := decide (part.toList <:+: text.toList)

def poisonMarkers : List String :=
  ["SyntaxError", "Unexpected token", "INVALID_EVENT_SCHEMA", "UNKNOWN_EVENT_TYPE"]

def isPoisonPillError (error : Thrown) : Except Thrown Bool :=
  if !error.truthy then .ok false
  else
    match stringifyUnknownError error with
    | some message => .ok (poisonMarkers.any (includes message))
    | none => .error (.error "Cannot read properties of undefined (reading 'includes')" none)

namespace KafkaHeaders

def dlqOriginalTopic : String := "x-dlq-original-topic"

def dlqOriginalOffset : String := "x-dlq-original-offset"

def dlqError : String := "x-dlq-error"

def dlqTimestamp : String := "x-dlq-timestamp"

end KafkaHeaders

def errorDetails : Thrown → String
  | .error message stack => if stack.getD "" = "" then message else stack.getD ""
  | error => (stringifyUnknownError error).getD "undefined"

def dlqTopic (originalTopic : String) : String := originalTopic ++ ".dlq"

/-- The record that `routeToDlq` sends. -/
def dlqRecord (originalTopic : String) (payload : KafkaBatchConsumerPayload) (error : Thrown)
    (now : String) : KafkaProducerRecord where
  topic := dlqTopic originalTopic
  key := if payload.key.getD "" = "" then "dlq" else payload.key.getD ""
  value := payload.value
  headers := (((payload.headers.insert KafkaHeaders.dlqOriginalTopic originalTopic).insert
    KafkaHeaders.dlqOriginalOffset payload.offset).insert
    KafkaHeaders.dlqError (errorDetails error)).insert KafkaHeaders.dlqTimestamp now

/-- The calls that `processBatch` makes. -/
inductive ConsumerCall where
  | heartbeat
  | handleMessage (payload : KafkaBatchConsumerPayload)
  | resolveOffset (offset : String)
  | commitOffsetsIfNecessary
  | recordLag
  | send (record : KafkaProducerRecord)
  | pause (topic : String) (partition : ℕ)

/-- What the surroundings answer while one message is taken up. -/
structure Outcome where
  isRunning : Bool
  isStale : Bool
  heartbeat : Except Thrown Unit
  handleMessage : Except Thrown Unit
  commitOffsetsIfNecessary : Except Thrown Unit
  recordLag : Except Thrown Unit
  send : Except Thrown Unit
  commitAfterDlq : Except Thrown Unit
  pause : Except Thrown Unit
  now : String

/-- A call, under the position in the batch of the message it is made for. -/
abbrev MessageCall := ℕ × ConsumerCall

abbrev Consumption := Recorded MessageCall Thrown Unit

/-- The `catch` block: a poison pill goes to the dead letter queue, any other error pauses
the partition and is thrown on. -/
def handleError (batch : Batch) (position : ℕ) (message : KafkaMessage) (outcome : Outcome)
    (error : Thrown) : Consumption :=
  match isPoisonPillError error with
  | .error typeError => throw typeError
  | .ok true => do
    .call (position, .send (dlqRecord batch.topic (batch.payload message) error outcome.now))
      outcome.send
    .call (position, .resolveOffset message.offset) (.ok ())
    .call (position, .commitOffsetsIfNecessary) outcome.commitAfterDlq
  | .ok false => do
    .call (position, .pause batch.topic batch.partition) outcome.pause
    throw error

/-- The `try` block. -/
def handleAndResolve (batch : Batch) (position : ℕ) (message : KafkaMessage)
    (outcome : Outcome) : Consumption := do
  .call (position, .handleMessage (batch.payload message)) outcome.handleMessage
  .call (position, .resolveOffset message.offset) (.ok ())
  .call (position, .commitOffsetsIfNecessary) outcome.commitOffsetsIfNecessary
  .call (position, .recordLag) outcome.recordLag

/-- One iteration of the loop that is not left. -/
def processMessage (batch : Batch) (position : ℕ) (message : KafkaMessage)
    (outcome : Outcome) : Consumption := do
  .call (position, .heartbeat) outcome.heartbeat
  try handleAndResolve batch position message outcome
  catch error => handleError batch position message outcome error

/-- The loop over the messages from a position on. -/
def processMessages (batch : Batch) (outcomes : ℕ → Outcome) :
    ℕ → List KafkaMessage → Consumption
  | _, [] => pure ()
  | position, message :: messages =>
    if !(outcomes position).isRunning || (outcomes position).isStale then pure ()
    else do
      processMessage batch position message (outcomes position)
      processMessages batch outcomes (position + 1) messages

def processBatch (batch : Batch) (outcomes : ℕ → Outcome) : Consumption :=
  processMessages batch outcomes 0 batch.messages

end EtherTrade.KafkaConsumer
