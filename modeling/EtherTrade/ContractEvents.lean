import EtherTrade.Keccak256

/-!
# Event logs of contracts

Event declarations, the logs that contracts emit for them, and the filter and decoder of a
client that declares events itself. The first topic of a log is the hash of the event's
signature, indexed arguments follow as topics, the others are encoded in the data. Only
types that fill one word are modelled.
-/

namespace EtherTrade.ContractEvents

open Keccak256

abbrev Word := BitVec 256

abbrev Address := BitVec 160

/-! ### Values -/

inductive AbiType where
  | bytes16
  | address
  | uint256
  deriving DecidableEq, Repr

namespace AbiType

def name : AbiType → String
  | bytes16 => "bytes16"
  | address => "address"
  | uint256 => "uint256"

def width : AbiType → ℕ
  | bytes16 => 128
  | address => 160
  | uint256 => 256

abbrev Value (type : AbiType) : Type := BitVec type.width

/-- Bytes stand on the left of their word, numbers on the right. -/
def encode : (type : AbiType) → type.Value → Word
  | bytes16, value => (show BitVec 128 from value).setWidth 256 <<< 128
  | address, value => (show BitVec 160 from value).setWidth 256
  | uint256, value => value

def decode : (type : AbiType) → Word → type.Value
  | bytes16, word => (word >>> 128).setWidth 128
  | address, word => word.setWidth 160
  | uint256, word => word

theorem setWidth_left (value : BitVec 128) :
    ((value.setWidth 256 <<< 128) >>> 128).setWidth 128 = value := by
  apply BitVec.eq_of_getLsbD_eq
  intro i hi
  simp [hi, show 128 + i < 256 by omega]

theorem setWidth_right (value : BitVec 160) : (value.setWidth 256).setWidth 160 = value := by
  apply BitVec.eq_of_getLsbD_eq
  intro i hi
  simp [hi]

theorem decode_encode (type : AbiType) (value : type.Value) :
    type.decode (type.encode value) = value := by
  cases type with
  | bytes16 => exact setWidth_left value
  | address => exact setWidth_right value
  | uint256 => rfl

end AbiType

/-! ### Events -/

structure EventInput where
  type : AbiType
  indexed : Bool
  deriving DecidableEq, Repr

structure Event where
  name : String
  inputs : List EventInput
  deriving DecidableEq, Repr

/-- A value for each input. -/
def Values : List EventInput → Type
  | [] => Unit
  | input :: inputs => input.type.Value × Values inputs

/-- A log as the chain keeps it. -/
structure Log where
  address : Address
  topics : List Word
  data : List Byte
  deriving DecidableEq, Repr

namespace Event

def asciiBytes (text : String) : List Byte := text.toList.map fun c => BitVec.ofNat 8 c.toNat

def signature (event : Event) : String :=
  event.name ++ "(" ++ ",".intercalate (event.inputs.map fun input => input.type.name) ++ ")"

def topic0 (event : Event) : Word := keccak256 (asciiBytes event.signature)

def argTopics : (inputs : List EventInput) → Values inputs → List Word
  | [], _ => []
  | input :: inputs, (value, values) =>
    if input.indexed then input.type.encode value :: argTopics inputs values
    else argTopics inputs values

def argData : (inputs : List EventInput) → Values inputs → List Byte
  | [], _ => []
  | input :: inputs, (value, values) =>
    if input.indexed then argData inputs values
    else toBytes 32 (input.type.encode value) ++ argData inputs values

/-- The log of an `emit` statement of the contract at an address. -/
def emit (event : Event) (address : Address) (values : Values event.inputs) : Log :=
  ⟨address, event.topic0 :: argTopics event.inputs values, argData event.inputs values⟩

/-- The filter that a client sends to the node for an event of the contract at an address. -/
def Selects (event : Event) (address : Address) (log : Log) : Prop :=
  log.address = address ∧ log.topics.head? = some event.topic0

instance (event : Event) (address : Address) (log : Log) :
    Decidable (event.Selects address log) :=
  inferInstanceAs (Decidable (_ ∧ _))

def decodeArgs : (inputs : List EventInput) → List Word → List Byte → Option (Values inputs)
  | [], _, _ => some ()
  | input :: inputs, topics, data =>
    if input.indexed then
      match topics with
      | [] => none
      | topic :: topics =>
        (decodeArgs inputs topics data).map fun values => (input.type.decode topic, values)
    else if data.length < 32 then none
    else
      (decodeArgs inputs topics (data.drop 32)).map fun values =>
        (input.type.decode (ofBytes 256 (data.take 32)), values)

/-- The arguments of a log that the filter selects, when its topics and data hold them all. -/
def decode (event : Event) (log : Log) : Option (Values event.inputs) :=
  decodeArgs event.inputs log.topics.tail log.data

theorem decodeArgs_encoded (inputs : List EventInput) (values : Values inputs) :
    decodeArgs inputs (argTopics inputs values) (argData inputs values) = some values := by
  induction inputs with
  | nil => rfl
  | cons input inputs ih =>
    obtain ⟨value, values⟩ := values
    by_cases hindexed : input.indexed = true
    · simp only [decodeArgs, argTopics, argData, if_pos hindexed, ih values,
        AbiType.decode_encode]
      rfl
    · have hlength : (toBytes 32 (input.type.encode value)).length = 32 := length_toBytes _
      have hshort : ¬(toBytes 32 (input.type.encode value) ++ argData inputs values).length < 32 := by
        rw [List.length_append, hlength]
        omega
      have hword := @ofBytes_toBytes 32 (input.type.encode value)
      simp only [decodeArgs, argTopics, argData, if_neg hindexed, if_neg hshort]
      rw [List.drop_left' hlength, List.take_left' hlength, hword, ih values,
        AbiType.decode_encode]
      rfl

/-- A client that declares the event as the contract does reads back its arguments. -/
theorem decode_emit (event : Event) (address : Address) (values : Values event.inputs) :
    event.decode (event.emit address values) = some values :=
  decodeArgs_encoded event.inputs values

/-- A filter selects the log of another event if and only if the signatures have one hash. -/
theorem selects_emit_iff (event emitted : Event) (address emitter : Address)
    (values : Values emitted.inputs) :
    event.Selects address (emitted.emit emitter values) ↔
      emitter = address ∧ emitted.topic0 = event.topic0 := by
  unfold Selects emit
  rw [List.head?_cons, Option.some_inj]

/-- The arguments of all logs of an event of the contract at an address. -/
def observed (event : Event) (address : Address) (logs : List Log) : List (Values event.inputs) :=
  logs.filterMap fun log => if event.Selects address log then event.decode log else none

variable {event emitted : Event} {address emitter : Address} {logs logs' : List Log} {log : Log}

theorem observed_append : event.observed address (logs ++ logs') =
    event.observed address logs ++ event.observed address logs' := List.filterMap_append

/-- The observer of an event reads back what was emitted. -/
theorem observed_emit {values : Values event.inputs} :
    event.observed address (logs ++ [event.emit address values]) =
      event.observed address logs ++ [values] := by
  have hselects : event.Selects address (event.emit address values) := ⟨rfl, rfl⟩
  rw [observed_append]
  congr 1
  simp only [observed, List.filterMap_cons, if_pos hselects, decode_emit, List.filterMap_nil]

theorem observed_eq_of_not_selects (h : ∀ log ∈ logs', ¬event.Selects address log) :
    event.observed address (logs ++ logs') = event.observed address logs := by
  have hnone : event.observed address logs' = [] :=
    List.filterMap_eq_nil_iff.mpr fun log hlog => if_neg (h log hlog)
  rw [observed_append, hnone, List.append_nil]

/-- Logs of other contracts are not seen. -/
theorem observed_of_address (h : ∀ log ∈ logs', log.address ≠ address) :
    event.observed address (logs ++ logs') = event.observed address logs :=
  observed_eq_of_not_selects fun log hlog hselects => h log hlog hselects.1

/-- Nor are those of events whose signatures have another hash. -/
theorem observed_emit_of_ne {values : Values emitted.inputs} (h : emitted.topic0 ≠ event.topic0) :
    event.observed address (logs ++ [emitted.emit emitter values]) =
      event.observed address logs :=
  observed_eq_of_not_selects fun log hlog hselects => by
    rw [List.mem_singleton.mp hlog, selects_emit_iff] at hselects
    exact h hselects.2

end Event

end EtherTrade.ContractEvents
