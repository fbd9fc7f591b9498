import EtherTrade.KafkaConsumer
import EtherTrade.TradeSettlement

/-!
# The trades settlement consumer on any message

`handleMessage` on whatever value a message holds, down to the statements it sends. What
bignumber.js and the statements answer belongs to its surroundings: one state of the
database, the library and the text of numbers. Stacks of errors and log levels are left
out; a text that is logged is still computed. The statements that write a settlement are
one call, with the ledger parameters that are built for them.
-/

namespace EtherTrade.TradesSettlementConsumer

open JsonValues KafkaConsumer AccountsSchema
open TradeSettlement (Participant tradeExecuted)

/-- What the consumer uses of bignumber.js. Any value may be given to the constructor, and one
that passes itself off as a number may break the arithmetic. -/
structure BigNumbers where
  Number : Type
  construct (value : Option Json) : Except Thrown Number
  multipliedBy (a b : Number) : Except Thrown Number
  minus (a b : Number) : Except Thrown Number
  isGreaterThan (a b : Number) : Except Thrown Bool
  /-- `toFixed(8)` -/
  toFixed (a : Number) : Except Thrown String

structure SettlementAmounts where
  quoteCost : String
  baseQuantity : String
  surplusRefund : String
  baseCurrency : String
  quoteCurrency : Option String

/-- What the calls outside the program answer while one message is handled. Accounts are
looked for twice, before and after an insert that fails. The four searches run at once;
`order` is the order in which they end. -/
structure Surroundings where
  numberText : JsonNumber → String
  numbers : BigNumbers
  findByUserAndCurrency (userId : Option Json) (currency : Option String) :
    Except Thrown (Option Uuid)
  insertAccount (userId : Option Json) (currency : Option String) : Except Thrown Uuid
  findFallback (userId : Option Json) (currency : Option String) : Except Thrown (Option Uuid)
  order : List Participant
  begin : Except Thrown Unit
  isEventProcessed (eventId : Option Json) : Except Thrown Bool
  lockAccounts (accountIds : List Uuid) : Except Thrown (List Uuid)
  writeSettlement (envelope : Json) (amounts : SettlementAmounts)
    (accountIds : Participant → Uuid) : Except Thrown Unit
  commit : Except Thrown Unit

def thrown {α : Type} (message : String) : Except Thrown α := .error (.error message none)

variable (s : Surroundings)

/-- The text of a value in a template. -/
def Surroundings.text : Option Json → Except Thrown String
  | none => .ok "undefined"
  | some value =>
    match value.toText s.numberText with
    | some text => .ok text
    | none => thrown "Cannot convert object to primitive value"

def accountCreateFailed (userId currency : String) : String :=
  "Failed to create or find account for user: " ++ (userId ++ (" and currency: " ++ currency))

def locksMissing (tradeId : String) : String :=
  "Failed to acquire locks on all 4 accounts for trade " ++ tradeId

def invalidEventSchema (offset : String) : String :=
  "INVALID_EVENT_SCHEMA: Missing envelope or payload at offset " ++ offset

def findOrCreate (userId : Option Json) (currency : Option String) : Except Thrown Uuid := do
  if let some existing ← s.findByUserAndCurrency userId currency then return existing
  match s.insertAccount userId currency with
  | .ok created => return created
  | .error _ =>
    if let some fallback ← s.findFallback userId currency then return fallback
    thrown (accountCreateFailed (← s.text userId) (currency.getD "undefined"))

/-- `const [baseRaw, quoteRaw] = trade.symbol.split('_')` -/
def splitSymbol : Option Json → Except Thrown (String × Option String)
  | none => thrown "Cannot read properties of undefined (reading 'split')"
  | some .null => thrown "Cannot read properties of null (reading 'split')"
  | some (.string text) =>
    let parts := (text.toList.splitOn '_').map String.ofList
    .ok (parts.headD "", parts[1]?)
  | some _ => thrown "trade.symbol.split is not a function or its return value is not iterable"

/-- `calculateSettlementAmounts` -/
def calculateSettlementAmounts (numbers : BigNumbers) (trade : Json) :
    Except Thrown SettlementAmounts := do
  let (baseCurrency, quoteCurrency) ← splitSymbol (trade.get "symbol")
  let price ← numbers.construct (trade.get "price")
  let quantity ← numbers.construct (trade.get "quantity")
  let buyerLimitPrice ← numbers.construct (trade.get "buyerLimitPrice")
  let quoteCost ← numbers.toFixed (← numbers.multipliedBy price quantity)
  let baseQuantity ← numbers.toFixed quantity
  let surplusRefund ←
    if ← numbers.isGreaterThan buyerLimitPrice price then
      numbers.toFixed (← numbers.multipliedBy (← numbers.minus buyerLimitPrice price) quantity)
    else pure "0"
  return { quoteCost, baseQuantity, surplusRefund, baseCurrency, quoteCurrency }

/-- The user and the currency of each account of a trade. -/
def owner (trade : Json) (base : String) (quote : Option String) :
    Participant → Option Json × Option String
  | .buyerQuote => (trade.get "buyerUserId", quote)
  | .buyerBase => (trade.get "buyerUserId", some base)
  | .sellerQuote => (trade.get "sellerUserId", quote)
  | .sellerBase => (trade.get "sellerUserId", some base)

/-- `Promise.all` of the four `findOrCreate`: the first that fails is thrown. -/
def findOrCreateParticipants (trade : Json) (base : String) (quote : Option String) :
    Except Thrown (Participant → Uuid) := do
  let account (p : Participant) :=
    findOrCreate s (owner trade base quote p).1 (owner trade base quote p).2
  s.order.forM fun p => discard (account p)
  let buyerQuote ← account .buyerQuote
  let buyerBase ← account .buyerBase
  let sellerQuote ← account .sellerQuote
  let sellerBase ← account .sellerBase
  return fun
    | .buyerQuote => buyerQuote
    | .buyerBase => buyerBase
    | .sellerQuote => sellerQuote
    | .sellerBase => sellerBase

/-- The settlement transaction. -/
def settleTransaction (envelope trade : Json) (amounts : SettlementAmounts)
    (accountIds : Participant → Uuid) : Except Thrown Unit := do
  s.begin
  if ← s.isEventProcessed (envelope.get "eventId") then
    discard (s.text (envelope.get "eventId"))
  else
    let locked ← s.lockAccounts (Participant.all.map accountIds)
    if !Participant.all.all fun p => accountIds p ∈ locked then
      thrown (locksMissing (← s.text (trade.get "tradeId")))
    s.writeSettlement envelope amounts accountIds
    discard (s.text (trade.get "tradeId"))
    discard (s.text (trade.get "quantity"))
    discard (s.text (trade.get "price"))
  s.commit

/-- What is left to do of a trade that is not skipped. -/
def settleTrade (envelope trade : Json) : Except Thrown Unit := do
  let amounts ← calculateSettlementAmounts s.numbers trade
  let accountIds ← findOrCreateParticipants s trade amounts.baseCurrency amounts.quoteCurrency
  settleTransaction s envelope trade amounts accountIds

namespace KafkaHeaders

def action : String := "x-action"

end KafkaHeaders

/-- `envelope.action || payload.headers[action]` -/
def messageAction (payload : KafkaBatchConsumerPayload) : Option Json :=
  if truthy (payload.value.get "action") then payload.value.get "action"
  else (payload.headers.lookup KafkaHeaders.action).map .string

/-- The schema check: an envelope with a payload and an event id. -/
def ValidSchema (value : Json) : Bool :=
  value.truthy && truthy (value.get "payload") && truthy (value.get "eventId")

/-- The action is another one than a trade's. -/
def OtherAction (payload : KafkaBatchConsumerPayload) : Bool :=
  truthy (messageAction payload) &&
    !strictlyEqual (messageAction payload) (some (.string tradeExecuted))

def SelfTrade (trade : Json) : Bool :=
  strictlyEqual (trade.get "buyerUserId") (trade.get "sellerUserId")

def handleMessage (payload : KafkaBatchConsumerPayload) : Except Thrown Unit := do
  let envelope := payload.value
  if !ValidSchema envelope then thrown (invalidEventSchema payload.offset)
  else if OtherAction payload then discard (s.text (messageAction payload))
  else
    let trade := (envelope.get "payload").getD .null
    if SelfTrade trade then
      discard (s.text (trade.get "tradeId"))
      discard (s.text (trade.get "buyerUserId"))
    else settleTrade s envelope trade

end EtherTrade.TradesSettlementConsumer
