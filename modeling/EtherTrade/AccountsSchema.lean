import Mathlib.Algebra.Group.Prod
import EtherTrade.DecimalNumbers
import EtherTrade.KeyedRows

/-!
# The tables of the accounts database

Rows of `accounts`, `ledger_transactions` and `processed_events`, with the columns the
balance mutations and the settlement consumer read or write. Columns are unbounded here:
a number that overflows its `numeric(28, 8)`, or an idempotency key or reference of more
than the 128 characters of its `varchar(128)`, makes the statement fail and the transaction
abort, and a transaction may always abort.
-/

namespace EtherTrade.AccountsSchema

open DecimalNumbers KeyedRows

abbrev Uuid := String

/-- `Currency`, and the codes that a trade symbol may carry beyond it. -/
inductive Currency where
  | usdt
  | usdc
  | eth
  | btc
  | other (code : String)
  deriving DecidableEq, Repr

def Currency.code : Currency → String
  | .usdt => "USDT"
  | .usdc => "USDC"
  | .eth => "ETH"
  | .btc => "BTC"
  | .other code => code

inductive LedgerTransactionType where
  | deposit
  | lock
  | unlock
  | onChainDeposit
  | withdrawal
  | tradeSettlement
  deriving DecidableEq, Repr

/-- A validated amount: positive, with at most eight decimals. -/
structure Amount where
  units : ℤ
  positive : 0 < units
  deriving DecidableEq, Repr

/-- A whole number of coins, at least one. -/
def Amount.coins (n : ℕ) : Amount where
  units := (max n 1 : ℕ) * 100000000
  positive := by omega

structure Account where
  id : Uuid
  userId : Uuid
  currency : Currency
  availableBalance : ℤ
  lockedBalance : ℤ
  deriving DecidableEq, Repr

structure LedgerTransaction where
  accountId : Uuid
  userId : Uuid
  currency : Currency
  type : LedgerTransactionType
  amount : ℤ
  availableDelta : ℤ
  lockedDelta : ℤ
  balanceAfterAvailable : ℤ
  balanceAfterLocked : ℤ
  idempotencyKey : Option String
  referenceId : Option String
  deriving DecidableEq, Repr

structure ProcessedEvent where
  eventId : Uuid
  eventType : String
  consumerGroup : String
  deriving DecidableEq, Repr

structure AccountsDb where
  accounts : List Account
  ledgerTransactions : List LedgerTransaction
  processedEvents : List ProcessedEvent
  deriving DecidableEq, Repr

/-- The available and the locked part of a balance. -/
abbrev Balances := ℤ × ℤ

namespace Account

/-- The columns of `accounts_user_id_currency_uidx`. -/
def owner (a : Account) : Uuid × Currency := (a.userId, a.currency)

def balances (a : Account) : Balances := (a.availableBalance, a.lockedBalance)

/-- `SET available_balance = available_balance + …, locked_balance = locked_balance + …`. -/
def add (a : Account) (change : Balances) : Account :=
  { a with
    availableBalance := a.availableBalance + change.1
    lockedBalance := a.lockedBalance + change.2 }

/-- A new row of `accounts` with zero balances. -/
def zero (id userId : Uuid) (currency : Currency) : Account := ⟨id, userId, currency, 0, 0⟩

variable (a : Account) (change : Balances)

@[simp] theorem add_id : (a.add change).id = a.id := rfl

@[simp] theorem add_owner : (a.add change).owner = a.owner := rfl

@[simp] theorem add_userId : (a.add change).userId = a.userId := rfl

@[simp] theorem add_currency : (a.add change).currency = a.currency := rfl

@[simp] theorem add_balances : (a.add change).balances = a.balances + change := rfl

@[simp] theorem add_zero : a.add 0 = a := by simp [add]

theorem add_add (change' : Balances) : (a.add change).add change' = a.add (change + change') := by
  simp [add, add_assoc]

variable (id userId : Uuid) (currency : Currency)

@[simp] theorem zero_id : (zero id userId currency).id = id := rfl

@[simp] theorem zero_owner : (zero id userId currency).owner = (userId, currency) := rfl

@[simp] theorem zero_balances : (zero id userId currency).balances = 0 := rfl

end Account

/-- The change a ledger row records. -/
def LedgerTransaction.change (t : LedgerTransaction) : Balances := (t.availableDelta, t.lockedDelta)

def LedgerTransaction.balancesAfter (t : LedgerTransaction) : Balances :=
  (t.balanceAfterAvailable, t.balanceAfterLocked)

namespace AccountsDb

def empty : AccountsDb := ⟨[], [], []⟩

def findById (db : AccountsDb) (id : Uuid) : Option Account := lookup Account.id db.accounts id

def findByUserAndCurrency (db : AccountsDb) (userId : Uuid) (currency : Currency) :
    Option Account := lookup Account.owner db.accounts (userId, currency)

def findLedgerByIdempotencyKey (db : AccountsDb) (idempotencyKey : String) :
    Option LedgerTransaction :=
  lookup LedgerTransaction.idempotencyKey db.ledgerTransactions (some idempotencyKey)

def findProcessedEvent (db : AccountsDb) (eventId : Uuid) : Option ProcessedEvent :=
  lookup ProcessedEvent.eventId db.processedEvents eventId

/-- Whether the event with `eventId` has already been recorded in `processed_events`. -/
def isEventProcessed (db : AccountsDb) (eventId : Uuid) : Bool :=
  (db.findProcessedEvent eventId).isSome

def insertAccount (db : AccountsDb) (a : Account) : AccountsDb :=
  { db with accounts := db.accounts ++ [a] }

/-- The row versions a transaction wrote take the place of the ones they were made from. -/
def install (db : AccountsDb) (versions : List Account) : AccountsDb :=
  { db with accounts := db.accounts.map fun a => (lookup Account.id versions a.id).getD a }

/-- Every account takes the change that belongs to its id. -/
def adjust (db : AccountsDb) (change : Uuid → Balances) : AccountsDb :=
  { db with accounts := db.accounts.map fun a => a.add (change a.id) }

def insertLedgerTransactions (db : AccountsDb) (ts : List LedgerTransaction) : AccountsDb :=
  { db with ledgerTransactions := db.ledgerTransactions ++ ts }

def markEventProcessed (db : AccountsDb) (e : ProcessedEvent) : AccountsDb :=
  { db with processedEvents := db.processedEvents ++ [e] }

end AccountsDb

end EtherTrade.AccountsSchema
