import EtherTrade.SequentialRequests

/-!
# Withdrawal requests, payouts and the balance calls of a withdrawal

Rows of `withdrawal_requests`, the withdrawal events of the outbox, the transactions that
the hot wallet has submitted, and the four calls to the accounts service. The times that
rows and events carry are left out; no statement reads them.
-/

namespace EtherTrade.WithdrawalsSchema

open KeyedRows AccountsSchema AccountsDbInvariants BalanceMutations BalanceMutationCorrectness
open SequentialRequests

inductive WithdrawalStatus where
  | pending
  | processing
  | completed
  | failed
  deriving DecidableEq, Repr

/-- What `requestWithdrawal` works with once its request is validated. An amount that is
zero after rounding is refused by the accounts service and leaves nothing behind. -/
structure WithdrawalTerms where
  userId : Uuid
  idempotencyKey : String
  destinationAddress : String
  currency : Currency
  amount : Amount
  deriving DecidableEq, Repr

/-- The columns of `uidx_withdrawal_requests_idempotency`. -/
def WithdrawalTerms.scope (terms : WithdrawalTerms) : Uuid × String :=
  (terms.userId, terms.idempotencyKey)

/-- A row of `withdrawal_requests`. -/
structure WithdrawalRequest extends WithdrawalTerms where
  id : Uuid
  txHash : Option String
  nonce : Option ℕ
  status : WithdrawalStatus
  errorMessage : Option String
  deriving DecidableEq, Repr

namespace WithdrawalRequest

def scope (row : WithdrawalRequest) : Uuid × String := row.toWithdrawalTerms.scope

/-- The row that `createWithdrawalRequest` inserts. -/
def create (terms : WithdrawalTerms) (id : Uuid) : WithdrawalRequest :=
  { terms with id, txHash := none, nonce := none, status := .pending, errorMessage := none }

end WithdrawalRequest

/-- The payloads of the withdrawal events. -/
inductive WithdrawalEvent where
  | completed (withdrawalId userId : Uuid) (currency : Currency) (amount : Amount)
      (txHash : String)
  | failed (withdrawalId userId : Uuid) (currency : Currency) (amount : Amount)
      (txHash reason : String)
  deriving DecidableEq, Repr

structure TransfersDb where
  withdrawals : List WithdrawalRequest
  outbox : List WithdrawalEvent
  deriving DecidableEq, Repr

namespace TransfersDb

def empty : TransfersDb := ⟨[], []⟩

def findWithdrawalByIdempotency (db : TransfersDb) (userId : Uuid) (idempotencyKey : String) :
    Option WithdrawalRequest :=
  lookup WithdrawalRequest.scope db.withdrawals (userId, idempotencyKey)

def findWithdrawalById (db : TransfersDb) (id : Uuid) : Option WithdrawalRequest :=
  lookup WithdrawalRequest.id db.withdrawals id

def findProcessingWithdrawalsWithTxHash (db : TransfersDb) : List WithdrawalRequest :=
  db.withdrawals.filter fun row => row.status = .processing ∧ row.txHash.isSome

def insertWithdrawal (db : TransfersDb) (row : WithdrawalRequest) : TransfersDb :=
  { db with withdrawals := db.withdrawals ++ [row] }

/-- `UPDATE withdrawal_requests SET … WHERE id = …`. -/
def updateWithdrawal (db : TransfersDb) (id : Uuid)
    (set : WithdrawalRequest → WithdrawalRequest) : TransfersDb :=
  { db with withdrawals := db.withdrawals.map fun row => if row.id = id then set row else row }

def insertEvent (db : TransfersDb) (event : WithdrawalEvent) : TransfersDb :=
  { db with outbox := db.outbox ++ [event] }

end TransfersDb

namespace WithdrawalRequest

variable (row : WithdrawalRequest)

def startProcessing : WithdrawalRequest := { row with status := .processing }

def recordTx (txHash : String) (nonce : ℕ) : WithdrawalRequest :=
  { row with txHash := some txHash, nonce := some nonce }

def complete : WithdrawalRequest := { row with status := .completed }

def fail (errorMessage : String) : WithdrawalRequest :=
  { row with status := .failed, errorMessage := some errorMessage }

end WithdrawalRequest

/-! ### Payouts -/

def nativeEthDecimals : ℕ := 18

def usdtDecimals : ℕ := 6

/-- Units of `10⁻⁸` as units of a token, rounded down. -/
def scalePlatformAmountToEvm (amount : Amount) (tokenDecimals : ℕ) : ℤ :=
  amount.units * 10 ^ tokenDecimals / 10 ^ 8

/-- What the hot wallet signs: ether for an address, or a transfer of the USDT contract. -/
inductive Payout where
  | ether (destinationAddress : String) (value : ℤ)
  | usdtTransfer (destinationAddress : String) (value : ℤ)
  deriving DecidableEq, Repr

def unsupportedWithdrawalCurrency (currency : Currency) : String :=
  "Unsupported withdrawal currency: " ++ currency.code

def payout (terms : WithdrawalTerms) : Except String Payout :=
  match terms.currency with
  | .eth => .ok (.ether terms.destinationAddress
      (scalePlatformAmountToEvm terms.amount nativeEthDecimals))
  | .usdt => .ok (.usdtTransfer terms.destinationAddress
      (scalePlatformAmountToEvm terms.amount usdtDecimals))
  | currency => .error (unsupportedWithdrawalCurrency currency)

/-- A transaction is not in a block yet, or its receipt has a status. -/
inductive TransactionStatus where
  | pending
  | success
  | reverted
  deriving DecidableEq, Repr

/-- A transaction that the node has accepted. It does not name the withdrawal it pays;
that is recorded here and read by no statement. -/
structure ChainTransaction where
  hash : String
  withdrawalId : Uuid
  payout : Payout
  status : TransactionStatus
  deriving DecidableEq, Repr

/-- A block includes the transaction. -/
def ChainTransaction.mine (tx : ChainTransaction) (succeeded : Bool) : ChainTransaction :=
  { tx with status := if succeeded then .success else .reverted }

/-! ### Calls to the accounts service -/

def lockPrefix : String := "withdraw-lock:"

def compensationPrefix : String := "withdraw-lock-compensate:"

def debitPrefix : String := "withdrawal-debit:"

def refundPrefix : String := "withdrawal-unlock:"

/-- The calls of `requestWithdrawal`, and those of `completeWithdrawal` and
`failWithdrawal`. -/
inductive BalanceCall where
  | lock (terms : WithdrawalTerms)
  | compensate (terms : WithdrawalTerms)
  | debit (row : WithdrawalRequest)
  | refund (row : WithdrawalRequest)
  deriving DecidableEq, Repr

namespace BalanceCall

def operation : BalanceCall → BalanceOperation
  | .lock _ => .lock
  | .compensate _ => .unlock
  | .debit _ => .debitWithdrawal
  | .refund _ => .unlock

def terms : BalanceCall → WithdrawalTerms
  | .lock terms => terms
  | .compensate terms => terms
  | .debit row => row.toWithdrawalTerms
  | .refund row => row.toWithdrawalTerms

def idempotencyKey : BalanceCall → String
  | .lock terms => lockPrefix ++ terms.idempotencyKey
  | .compensate terms => compensationPrefix ++ terms.idempotencyKey
  | .debit row => debitPrefix ++ row.id
  | .refund row => refundPrefix ++ row.idempotencyKey

def referenceId : BalanceCall → String
  | .lock terms => terms.idempotencyKey
  | .compensate terms => terms.idempotencyKey
  | .debit row => row.id
  | .refund row => row.id

def params (call : BalanceCall) : BalanceParams where
  userId := call.terms.userId
  currency := call.terms.currency
  amount := call.terms.amount
  idempotencyKey := call.idempotencyKey
  referenceId := some call.referenceId

/-- The accounts service performs the call. None of the calls opens an account. -/
def run (call : BalanceCall) (accounts : AccountsDb) :
    AccountsDb × Option BalanceMutationResult :=
  mutateBalance call.operation.mutation "" call.params accounts

/-- The caller learns of a success, be it new or a replay; every other result is an error. -/
def succeeds (call : BalanceCall) (accounts : AccountsDb) : Bool :=
  match (call.run accounts).2 with
  | some (.ok _) => true
  | some (.idempotentReplay _) => true
  | _ => false

/-- The call moves the balance now. -/
def takesEffect (call : BalanceCall) (accounts : AccountsDb) : Bool :=
  match (call.run accounts).2 with
  | some (.ok _) => true
  | _ => false

end BalanceCall

end EtherTrade.WithdrawalsSchema
