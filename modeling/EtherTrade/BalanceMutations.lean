import EtherTrade.AccountsSchema

/-!
# The balance mutations

`deposit`, `lock`, `unlock`, `creditDeposit` and `debitWithdrawal` of the balances
repository, each as one uninterrupted transaction. They share one body; a mutation is
given by what it reads into that body. `none` in place of a result means that a
statement failed and the transaction was rolled back. A balance that overflows its column
and a key that is too long for it are such failures; where a mutation is one step of a
system, its caller sees a transaction that did not take effect.
-/

namespace EtherTrade.BalanceMutations

open DecimalNumbers KeyedRows AccountsSchema

/-- `DepositParams`, and the reference that the other parameter types add. -/
structure BalanceParams where
  userId : Uuid
  currency : Currency
  amount : Amount
  idempotencyKey : String
  referenceId : Option String
  deriving DecidableEq, Repr

inductive BalanceMutationResult where
  | ok (account : Account)
  | idempotentReplay (account : Account)
  | notFound
  | insufficientAvailable (available : ℤ)
  | insufficientLocked (locked : ℤ)
  | idempotencyPayloadMismatch
  deriving DecidableEq, Repr

/-- A balance mutation: the ledger type it writes and expects in a replay, whether it
opens a missing account, what it adds to the balances, and when its update matches no
row. -/
structure BalanceMutation where
  expectedType : LedgerTransactionType
  opensAccount : Bool
  change : Amount → Balances
  refusal : Account → Amount → Option BalanceMutationResult
  referenceId : BalanceParams → Option String

def depositMutation : BalanceMutation where
  expectedType := .deposit
  opensAccount := true
  change amount := (amount.units, 0)
  refusal _ _ := none
  referenceId _ := none

def lockMutation : BalanceMutation where
  expectedType := .lock
  opensAccount := false
  change amount := (-amount.units, amount.units)
  refusal account amount :=
    if account.availableBalance ≥ amount.units then none
    else some (.insufficientAvailable account.availableBalance)
  referenceId params := params.referenceId

def unlockMutation : BalanceMutation where
  expectedType := .unlock
  opensAccount := false
  change amount := (amount.units, -amount.units)
  refusal account amount :=
    if account.lockedBalance ≥ amount.units then none
    else some (.insufficientLocked account.lockedBalance)
  referenceId params := params.referenceId

def creditDepositMutation : BalanceMutation where
  expectedType := .onChainDeposit
  opensAccount := true
  change amount := (amount.units, 0)
  refusal _ _ := none
  referenceId params := params.referenceId

def debitWithdrawalMutation : BalanceMutation where
  expectedType := .withdrawal
  opensAccount := false
  change amount := (0, -amount.units)
  refusal account amount :=
    if account.lockedBalance ≥ amount.units then none
    else some (.insufficientLocked account.lockedBalance)
  referenceId params := params.referenceId

inductive BalanceOperation where
  | deposit
  | lock
  | unlock
  | creditDeposit
  | debitWithdrawal
  deriving DecidableEq, Repr

def BalanceOperation.mutation : BalanceOperation → BalanceMutation
  | .deposit => depositMutation
  | .lock => lockMutation
  | .unlock => unlockMutation
  | .creditDeposit => creditDepositMutation
  | .debitWithdrawal => debitWithdrawalMutation

/-- What the first query of the replay check finds under the idempotency key. -/
inductive ReplayCheck where
  | unused
  | mismatch
  | replay (accountId : Uuid)
  deriving DecidableEq, Repr

def checkReplay (expectedType : LedgerTransactionType) (params : BalanceParams)
    (db : AccountsDb) : ReplayCheck :=
  match db.findLedgerByIdempotencyKey params.idempotencyKey with
  | none => .unused
  | some existing =>
    if existing.amount = params.amount.units ∧ existing.currency = params.currency ∧
        existing.type = expectedType then
      .replay existing.accountId
    else .mismatch

/-- The second query of the replay check reads the account of the earlier row. -/
def readReplayedAccount (accountId : Uuid) (db : AccountsDb) : BalanceMutationResult :=
  match db.findById accountId with
  | none => .notFound
  | some account => .idempotentReplay account

def resolveIdempotencyReplay (expectedType : LedgerTransactionType) (params : BalanceParams)
    (db : AccountsDb) : Option BalanceMutationResult :=
  match checkReplay expectedType params db with
  | .unused => none
  | .mismatch => some .idempotencyPayloadMismatch
  | .replay accountId => some (readReplayedAccount accountId db)

namespace BalanceMutation

variable (m : BalanceMutation) (params : BalanceParams)

/-- The row the guarded `UPDATE` returns. -/
def updatedAccount (account : Account) : Account := account.add (m.change params.amount)

def ledgerTransaction (updated : Account) : LedgerTransaction where
  accountId := updated.id
  userId := params.userId
  currency := params.currency
  type := m.expectedType
  amount := params.amount.units
  availableDelta := (m.change params.amount).1
  lockedDelta := (m.change params.amount).2
  balanceAfterAvailable := updated.availableBalance
  balanceAfterLocked := updated.lockedBalance
  idempotencyKey := some params.idempotencyKey
  referenceId := m.referenceId params

/-- What the transaction wrote becomes visible when it commits. -/
def commit (account : Account) (db : AccountsDb) : AccountsDb :=
  let updated := m.updatedAccount params account
  (db.install [updated]).insertLedgerTransactions [m.ledgerTransaction params updated]

end BalanceMutation

/-- One balance mutation from its first statement to its commit. A missing account is
inserted with the id `newId`; the primary key refuses an id that is in use. -/
def mutateBalance (m : BalanceMutation) (newId : Uuid) (params : BalanceParams)
    (db : AccountsDb) : AccountsDb × Option BalanceMutationResult :=
  match resolveIdempotencyReplay m.expectedType params db with
  | some replay => (db, some replay)
  | none =>
    match db.findByUserAndCurrency params.userId params.currency with
    | some account =>
      match m.refusal account params.amount with
      | some refused => (db, some refused)
      | none => (m.commit params account db, some (.ok (m.updatedAccount params account)))
    | none =>
      if m.opensAccount then
        if (db.findById newId).isSome then (db, none)
        else
          let account := Account.zero newId params.userId params.currency
          (m.commit params account (db.insertAccount account),
            some (.ok (m.updatedAccount params account)))
      else (db, some .notFound)

def deposit := mutateBalance depositMutation

def lock := mutateBalance lockMutation

def unlock := mutateBalance unlockMutation

def creditDeposit := mutateBalance creditDepositMutation

def debitWithdrawal := mutateBalance debitWithdrawalMutation

def accountCreateFailed (userId : Uuid) (currency : Currency) : String :=
  "Failed to create or find account for user: " ++ userId ++ " and currency: " ++ currency.code

/-- Finds an account or creates it with zero balances. Without a concurrent insert the
only failure is an id that is in use, and then there is nothing to fall back to. -/
def findOrCreate (newId userId : Uuid) (currency : Currency) (db : AccountsDb) :
    AccountsDb × Except String Account :=
  match db.findByUserAndCurrency userId currency with
  | some account => (db, .ok account)
  | none =>
    if (db.findById newId).isSome then (db, .error (accountCreateFailed userId currency))
    else
      let account := Account.zero newId userId currency
      (db.insertAccount account, .ok account)

end EtherTrade.BalanceMutations
