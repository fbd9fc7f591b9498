import Mathlib.Data.List.Dedup
import Mathlib.Data.List.Sort
import Mathlib.Data.String.Basic
import EtherTrade.BalanceMutations

/-!
# The trades settlement consumer

`handleMessage` of the consumer, the amounts and ledger entries it computes, and its
transaction, run without interruption. Prices and quantities are the numbers their
texts stand for, `nan` where a text is no number; texts on which the constructor of
`BigNumber` throws are not represented. What is computed from them is text again until the
database reads it.
-/

namespace EtherTrade.TradeSettlement

open DecimalNumbers KeyedRows AccountsSchema BalanceMutations

/-- A trade symbol, the text `base_quote`. -/
structure TradingSymbol where
  base : Currency
  quote : Currency
  deriving DecidableEq, Repr

structure TradeExecutedEvent where
  tradeId : Uuid
  buyerUserId : Uuid
  sellerUserId : Uuid
  symbol : TradingSymbol
  price : BigNumber
  quantity : BigNumber
  buyerLimitPrice : BigNumber
  deriving DecidableEq, Repr

structure DomainEventEnvelope where
  eventId : Uuid
  action : String
  eventType : String
  payload : Option TradeExecutedEvent
  deriving DecidableEq, Repr

/-- A message of the topic. A text that is missing is empty. -/
structure KafkaBatchConsumerPayload where
  offset : String
  value : Option DomainEventEnvelope
  actionHeader : String
  deriving DecidableEq, Repr

def tradeExecuted : String := "TRADE_EXECUTED"

def accountsSettlement : String := "accounts-settlement-group"

/-- The four accounts of a trade. -/
inductive Participant where
  | buyerQuote
  | buyerBase
  | sellerQuote
  | sellerBase
  deriving DecidableEq, Repr

namespace Participant

def all : List Participant := [buyerQuote, buyerBase, sellerQuote, sellerBase]

theorem mem_all (p : Participant) : p ∈ all := by cases p <;> decide

end Participant

def TradeExecutedEvent.owner (trade : TradeExecutedEvent) : Participant → Uuid × Currency
  | .buyerQuote => (trade.buyerUserId, trade.symbol.quote)
  | .buyerBase => (trade.buyerUserId, trade.symbol.base)
  | .sellerQuote => (trade.sellerUserId, trade.symbol.quote)
  | .sellerBase => (trade.sellerUserId, trade.symbol.base)

structure SettlementAmounts where
  baseCurrency : Currency
  quoteCurrency : Currency
  quoteCost : NumericText
  baseQuantity : NumericText
  surplusRefund : NumericText
  deriving DecidableEq, Repr

/-- The surplus refund is `max(0, (buyerLimitPrice - price) * quantity)`. -/
def calculateSettlementAmounts (trade : TradeExecutedEvent) : SettlementAmounts where
  baseCurrency := trade.symbol.base
  quoteCurrency := trade.symbol.quote
  quoteCost := (trade.price.multipliedBy trade.quantity).toFixed
  baseQuantity := trade.quantity.toFixed
  surplusRefund :=
    if trade.buyerLimitPrice.isGreaterThan trade.price then
      ((trade.buyerLimitPrice.minus trade.price).multipliedBy trade.quantity).toFixed
    else .zero

structure SettlementLedgerEntry where
  accountId : Uuid
  userId : Uuid
  currency : Currency
  type : LedgerTransactionType
  amount : NumericText
  availableDelta : NumericText
  lockedDelta : NumericText
  referenceId : String
  deriving DecidableEq, Repr

def buyerLockedDeduction (amounts : SettlementAmounts) : NumericText :=
  (amounts.quoteCost.toBigNumber.plus amounts.surplusRefund.toBigNumber).toFixed

def buildSettlementLedgerParams (trade : TradeExecutedEvent) (amounts : SettlementAmounts)
    (accountIds : Participant → Uuid) : List SettlementLedgerEntry :=
  [{ accountId := accountIds .buyerQuote
     userId := trade.buyerUserId
     currency := amounts.quoteCurrency
     type := .tradeSettlement
     amount := amounts.quoteCost
     availableDelta := amounts.surplusRefund
     lockedDelta := (buyerLockedDeduction amounts).withMinus
     referenceId := trade.tradeId },
   { accountId := accountIds .buyerBase
     userId := trade.buyerUserId
     currency := amounts.baseCurrency
     type := .tradeSettlement
     amount := amounts.baseQuantity
     availableDelta := amounts.baseQuantity
     lockedDelta := .zero
     referenceId := trade.tradeId },
   { accountId := accountIds .sellerBase
     userId := trade.sellerUserId
     currency := amounts.baseCurrency
     type := .tradeSettlement
     amount := amounts.baseQuantity
     availableDelta := .zero
     lockedDelta := amounts.baseQuantity.withMinus
     referenceId := trade.tradeId },
   { accountId := accountIds .sellerQuote
     userId := trade.sellerUserId
     currency := amounts.quoteCurrency
     type := .tradeSettlement
     amount := amounts.quoteCost
     availableDelta := amounts.quoteCost
     lockedDelta := .zero
     referenceId := trade.tradeId }]

/-- The order in which `ORDER BY id FOR UPDATE` locks the accounts of a trade. -/
def lockOrder (accountIds : Participant → Uuid) : List Uuid :=
  (Participant.all.map accountIds).dedup.insertionSort (· ≤ ·)

/-- The changes of the four `UPDATE` statements, in their order. -/
def settlementLegs (amounts : SettlementAmounts) (accountIds : Participant → Uuid) :
    Option (List (Uuid × Balances)) := do
  let quoteCost ← amounts.quoteCost.toNumeric
  let baseQuantity ← amounts.baseQuantity.toNumeric
  let surplusRefund ← amounts.surplusRefund.toNumeric
  return [
    (accountIds .buyerQuote, (surplusRefund, -(quoteCost + surplusRefund))),
    (accountIds .buyerBase, (baseQuantity, 0)),
    (accountIds .sellerBase, (0, -baseQuantity)),
    (accountIds .sellerQuote, (quoteCost, 0))]

/-- `UPDATE accounts SET … WHERE id = …` -/
def updateById (id : Uuid) (change : Balances) (rows : List Account) : List Account :=
  rows.map fun a => if a.id = id then a.add change else a

/-- Runs updates by id on the locked rows; also the row each of them returns. -/
def runUpdates : List (Uuid × Balances) → List Account → List Account × List (Uuid × Option Account)
  | [], rows => (rows, [])
  | (id, change) :: legs, rows =>
    let updated := updateById id change rows
    let rest := runUpdates legs updated
    (rest.1, (id, lookup Account.id updated id) :: rest.2)

/-- `afterBalancesMap.get(id)`: a later entry of the map replaces an earlier one. -/
def afterBalances (returned : List (Uuid × Option Account)) (id : Uuid) : Balances :=
  match (returned.filter fun r => r.1 = id).getLast? with
  | some (_, some account) => account.balances
  | _ => 0

/-- The row an entry becomes, if all its numbers can be read. -/
def SettlementLedgerEntry.toLedgerTransaction (entry : SettlementLedgerEntry) (after : Balances) :
    Option LedgerTransaction := do
  let amount ← entry.amount.toNumeric
  let availableDelta ← entry.availableDelta.toNumeric
  let lockedDelta ← entry.lockedDelta.toNumeric
  return {
    accountId := entry.accountId
    userId := entry.userId
    currency := entry.currency
    type := entry.type
    amount, availableDelta, lockedDelta
    balanceAfterAvailable := after.1
    balanceAfterLocked := after.2
    idempotencyKey := none
    referenceId := some entry.referenceId }

/-- What the settlement transaction writes before it marks the event. -/
structure SettlementWrites where
  versions : List Account
  entries : List LedgerTransaction
  deriving DecidableEq, Repr

/-- The statements between locking the accounts and marking the event. They touch
locked rows only; one that the database refuses fails the transaction. -/
def settlementWrites (trade : TradeExecutedEvent) (accountIds : Participant → Uuid)
    (lockedAccounts : List Account) : Option SettlementWrites := do
  let amounts := calculateSettlementAmounts trade
  let legs ← settlementLegs amounts accountIds
  let updates := runUpdates legs lockedAccounts
  let entries ← (buildSettlementLedgerParams trade amounts accountIds).mapM fun entry =>
    entry.toLedgerTransaction (afterBalances updates.2 entry.accountId)
  return ⟨updates.1, entries⟩

def processedEvent (envelope : DomainEventEnvelope) : ProcessedEvent :=
  ⟨envelope.eventId, envelope.eventType, accountsSettlement⟩

def commitSettlement (envelope : DomainEventEnvelope) (writes : SettlementWrites)
    (db : AccountsDb) : AccountsDb :=
  ((db.install writes.versions).insertLedgerTransactions writes.entries).markEventProcessed
    (processedEvent envelope)

inductive HandleOutcome where
  | ignored
  | selfTrade
  | alreadyProcessed
  | settled
  | databaseError
  | thrown (message : String)
  deriving DecidableEq, Repr

def invalidEventSchema (payload : KafkaBatchConsumerPayload) : String :=
  "INVALID_EVENT_SCHEMA: Missing envelope or payload at offset " ++ payload.offset

def locksMissing (trade : TradeExecutedEvent) : String :=
  "Failed to acquire locks on all 4 accounts for trade " ++ trade.tradeId

/-- `envelope.action || headers[action]` -/
def messageAction (payload : KafkaBatchConsumerPayload) (envelope : DomainEventEnvelope) : String :=
  if envelope.action = "" then payload.actionHeader else envelope.action

/-- The checks before any statement: the trade to settle, or the outcome. -/
def acceptMessage (payload : KafkaBatchConsumerPayload) :
    HandleOutcome ⊕ (DomainEventEnvelope × TradeExecutedEvent) :=
  match payload.value with
  | none => .inl (.thrown (invalidEventSchema payload))
  | some envelope =>
    match envelope.payload with
    | none => .inl (.thrown (invalidEventSchema payload))
    | some trade =>
      if envelope.eventId = "" then .inl (.thrown (invalidEventSchema payload))
      else if messageAction payload envelope ≠ "" ∧
          messageAction payload envelope ≠ tradeExecuted then .inl .ignored
      else if trade.buyerUserId = trade.sellerUserId then .inl .selfTrade
      else .inr (envelope, trade)

/-- `findOrCreate` for the four accounts. One that fails does not stop the others. -/
def findOrCreateParticipants (trade : TradeExecutedEvent) (newIds : Participant → Uuid)
    (db : AccountsDb) : AccountsDb × Except String (Participant → Uuid) :=
  let run (p : Participant) (db : AccountsDb) :=
    findOrCreate (newIds p) (trade.owner p).1 (trade.owner p).2 db
  let buyerQuote := run .buyerQuote db
  let buyerBase := run .buyerBase buyerQuote.1
  let sellerQuote := run .sellerQuote buyerBase.1
  let sellerBase := run .sellerBase sellerQuote.1
  (sellerBase.1, do
    let buyerQuote ← buyerQuote.2
    let buyerBase ← buyerBase.2
    let sellerQuote ← sellerQuote.2
    let sellerBase ← sellerBase.2
    return fun
      | .buyerQuote => buyerQuote.id
      | .buyerBase => buyerBase.id
      | .sellerQuote => sellerQuote.id
      | .sellerBase => sellerBase.id)

/-- The rows `SELECT … FOR UPDATE` returns. -/
def selectLocked (accountIds : Participant → Uuid) (db : AccountsDb) : List Account :=
  (lockOrder accountIds).filterMap db.findById

/-- The settlement transaction. A statement that fails rolls it back. -/
def settleTransaction (envelope : DomainEventEnvelope) (trade : TradeExecutedEvent)
    (accountIds : Participant → Uuid) (db : AccountsDb) : AccountsDb × HandleOutcome :=
  if db.isEventProcessed envelope.eventId then (db, .alreadyProcessed)
  else
    let lockedAccounts := selectLocked accountIds db
    if Participant.all.all fun p => (lookup Account.id lockedAccounts (accountIds p)).isSome then
      match settlementWrites trade accountIds lockedAccounts with
      | none => (db, .databaseError)
      | some writes => (commitSettlement envelope writes db, .settled)
    else (db, .thrown (locksMissing trade))

def handleMessage (payload : KafkaBatchConsumerPayload) (newIds : Participant → Uuid)
    (db : AccountsDb) : AccountsDb × HandleOutcome :=
  match acceptMessage payload with
  | .inl outcome => (db, outcome)
  | .inr (envelope, trade) =>
    match findOrCreateParticipants trade newIds db with
    | (db, .error message) => (db, .thrown message)
    | (db, .ok accountIds) => settleTransaction envelope trade accountIds db

end EtherTrade.TradeSettlement
