import EtherTrade.InterleavedProcesses
import EtherTrade.WithdrawalsSchema

/-!
# Concurrent withdrawal requests and the withdrawal processor

Calls of `requestWithdrawal`, ticks of the withdrawal processor and its recovery pass as
interleaved processes, one statement, balance call or RPC to the node at a time. A process
may stop after any step; a restart is another process that begins with the recovery pass.
Any statement may fail, and a commit may take effect although its acknowledgement is lost.
When that is the commit of `lockNextPendingWithdrawal`, nobody goes on with the locked row, and
the process stops behind its step as in a crash.

A balance call takes effect in the accounts database in one step. Where its caller sees an
error without an answer, the call is still in flight: it may take effect later, or never.
The rest of the platform calls the accounts service too, but no other caller locks or
unlocks under a key of a withdrawal. Blocks include submitted transactions at any time.
-/

namespace EtherTrade.WithdrawalTransactions

open KeyedRows AccountsSchema BalanceMutations SequentialRequests WithdrawalsSchema
open InterleavedProcesses

structure TransfersStore where
  accounts : AccountsDb
  db : TransfersDb
  chain : List ChainTransaction
  inFlight : List BalanceCall

inductive Failure where
  | badRequest (message : String)
  | accounts
  | database
  deriving DecidableEq, Repr

inductive Requesting where
  | checking
  | locking
  | inserting
  | compensating
  | returned (withdrawal : WithdrawalRequest)
  | thrown (failure : Failure)
  deriving DecidableEq, Repr

/-- `executeOnChainWithdrawal` up to the receipt. -/
inductive Executing where
  | broadcasting
  | recording (txHash : String)
  | awaitingReceipt (txHash : String)
  deriving DecidableEq, Repr

/-- `completeWithdrawal` and `failWithdrawal`. -/
inductive Finalizing where
  | debiting (txHash : String)
  | completing (txHash : String)
  | unlocking (reason : String)
  | failing (reason : String)
  deriving DecidableEq, Repr

/-- A process that finalizes a withdrawal has `rest` left to recover. -/
inductive Process where
  | idle
  | requesting (terms : WithdrawalTerms) (progress : Requesting)
  | executing (row : WithdrawalRequest) (progress : Executing)
  | finalizing (row : WithdrawalRequest) (progress : Finalizing) (rest : List WithdrawalRequest)
  | recovering (rest : List WithdrawalRequest)
  | finished
  deriving DecidableEq, Repr

/-- What becomes of a balance call: it is answered, or the caller sees an error instead. An error
that the accounts service replies with after its transaction was rolled back is unanswered,
too: such a call never arrives. -/
inductive Delivery where
  | answered
  | unanswered
  deriving DecidableEq, Repr

/-- What becomes of a transaction that is handed to the node. -/
inductive Broadcast where
  | sent (txHash : String)
  | sentUnacknowledged (txHash message : String)
  | notSent (message : String)
  deriving DecidableEq, Repr

/-- What a process can do: start, run its next statement, insert a row with a new id, make
its balance call, hand a transaction to the node, or fail. The rest of the world mines,
lets a call in flight arrive and calls the accounts service. -/
inductive Action where
  | requestWithdrawal (terms : WithdrawalTerms)
  | processNextWithdrawal (id : Uuid)
  | recoverStuckProcessingWithdrawals
  | statement
  | insert (newId : Uuid)
  | insertUnacknowledged (newId : Uuid)
  | call (delivery : Delivery)
  | broadcast (outcome : Broadcast)
  | abort (message : String)
  | commitUnacknowledged (message : String)
  | mine (txHash : String) (succeeded : Bool)
  | arrive (call : BalanceCall)
  | accounts (request : Request)

/-- The key is one of `requestWithdrawal` or of the withdrawal processor. -/
def IsWithdrawalKey (key : String) : Prop := "withdraw".toList <+: key.toList

instance (key : String) : Decidable (IsWithdrawalKey key) :=
  inferInstanceAs (Decidable (_ <+: _))

/-- A request that does not come from the transfers service. -/
def Foreign : Request → Prop
  | .call op _ params => op = .lock ∨ op = .unlock → ¬IsWithdrawalKey params.idempotencyKey
  | .deliver _ _ => True

instance (request : Request) : Decidable (Foreign request) :=
  match request with
  | .call _ _ _ => inferInstanceAs (Decidable (_ → _))
  | .deliver _ _ => inferInstanceAs (Decidable True)

variable (s : TransfersStore)

/-! ### Effects on the shared store -/

def setDb (db : TransfersDb) : TransfersStore := { s with db }

def perform (call : BalanceCall) : TransfersStore :=
  { s with accounts := (call.run s.accounts).1 }

def submit (tx : ChainTransaction) : TransfersStore := { s with chain := s.chain ++ [tx] }

def findTransaction (txHash : String) : Option ChainTransaction :=
  lookup ChainTransaction.hash s.chain txHash

/-- The block with the transaction decides its status once. -/
def mineTransaction (txHash : String) (succeeded : Bool) : TransfersStore :=
  { s with chain := s.chain.map fun tx =>
      if tx.hash = txHash ∧ tx.status = .pending then tx.mine succeeded else tx }

/-! ### requestWithdrawal -/

def unsupportedCurrency (currency : Currency) : String :=
  "Unsupported currency for withdrawal: " ++ currency.code

/-- The row is stored unless one of the unique indexes refuses it. -/
def createWithdrawalRequest (row : WithdrawalRequest) : Option TransfersStore :=
  if (s.db.findWithdrawalByIdempotency row.userId row.idempotencyKey).isSome ||
      (s.db.findWithdrawalById row.id).isSome then none
  else some (setDb s (s.db.insertWithdrawal row))

def requestingStep (terms : WithdrawalTerms) : Requesting → Action →
    Option (TransfersStore × Requesting)
  | .checking, .statement =>
    match s.db.findWithdrawalByIdempotency terms.userId terms.idempotencyKey with
    | some existing => some (s, .returned existing)
    | none => some (s, .locking)
  | .checking, .abort _ => some (s, .thrown .database)
  | .inserting, .insert newId =>
    let row := WithdrawalRequest.create terms newId
    match createWithdrawalRequest s row with
    | some stored => some (stored, .returned row)
    | none => some (s, .compensating)
  | .inserting, .insertUnacknowledged newId =>
    (createWithdrawalRequest s (.create terms newId)).map fun stored => (stored, .compensating)
  | .inserting, .abort _ => some (s, .compensating)
  | _, _ => none

/-! ### The processor -/

/-- The loop of the recovery pass goes on, or the process is done. -/
def resume : List WithdrawalRequest → Process
  | [] => .finished
  | rest => .recovering rest

def executingStep (row : WithdrawalRequest) : Executing → Action →
    Option (TransfersStore × Process)
  | .broadcasting, .statement =>
    match payout row.toWithdrawalTerms with
    | .ok _ => none
    | .error message => some (s, .finalizing row (.unlocking message) [])
  | .broadcasting, .broadcast outcome =>
    match payout row.toWithdrawalTerms, outcome with
    | .error _, _ => none
    | .ok _, .notSent message => some (s, .finalizing row (.unlocking message) [])
    | .ok payout, .sent txHash =>
      if (findTransaction s txHash).isSome then none
      else some (submit s ⟨txHash, row.id, payout, .pending⟩, .executing row (.recording txHash))
    | .ok payout, .sentUnacknowledged txHash message =>
      if (findTransaction s txHash).isSome then none
      else some (submit s ⟨txHash, row.id, payout, .pending⟩,
        .finalizing row (.unlocking message) [])
  | .recording txHash, .statement =>
    some (setDb s (s.db.updateWithdrawal row.id fun row => row.recordTx txHash 0),
      .executing row (.awaitingReceipt txHash))
  | .recording txHash, .commitUnacknowledged message =>
    some (setDb s (s.db.updateWithdrawal row.id fun row => row.recordTx txHash 0),
      .finalizing row (.unlocking message) [])
  | .recording _, .abort message => some (s, .finalizing row (.unlocking message) [])
  | .awaitingReceipt txHash, .statement =>
    match (findTransaction s txHash).map ChainTransaction.status with
    | some .success => some (s, .finalizing row (.debiting txHash) [])
    | some .reverted => some (s, .finalizing row (.unlocking "Transaction reverted") [])
    | _ => none
  | .awaitingReceipt _, .abort message => some (s, .finalizing row (.unlocking message) [])
  | _, _ => none

/-- The transactions that end a withdrawal. Their errors are logged and swallowed. -/
def finalizingStep (row : WithdrawalRequest) (rest : List WithdrawalRequest) :
    Finalizing → Action → Option (TransfersStore × Process)
  | .completing txHash, .statement =>
    some (setDb s ((s.db.updateWithdrawal row.id fun row => row.complete).insertEvent
      (.completed row.id row.userId row.currency row.amount txHash)), resume rest)
  | .failing reason, .statement =>
    let reason := String.ofList (reason.toList.take 255)
    some (setDb s ((s.db.updateWithdrawal row.id fun row => row.fail reason).insertEvent
      (.failed row.id row.userId row.currency row.amount "" reason)), resume rest)
  | .completing _, .abort _ => some (s, resume rest)
  | .failing _, .abort _ => some (s, resume rest)
  | _, _ => none

def recoveringStep : List WithdrawalRequest → Action → Option Process
  | row :: rest, .statement =>
    match row.txHash with
    | none => some (resume rest)
    | some txHash =>
      match (findTransaction s txHash).map ChainTransaction.status with
      | some .success => some (.finalizing row (.debiting txHash) rest)
      | some .reverted =>
        some (.finalizing row (.unlocking "Transaction reverted on-chain") rest)
      -- without a receipt `getTransactionReceipt` throws, and the loop goes on
      | _ => some (resume rest)
  | _ :: rest, .abort _ => some (resume rest)
  | _, _ => none

/-! ### Balance calls -/

/-- The balance call that a process is about to make. -/
def Process.nextCall : Process → Option BalanceCall
  | .requesting terms .locking => some (.lock terms)
  | .requesting terms .compensating => some (.compensate terms)
  | .finalizing row (.debiting _) _ => some (.debit row)
  | .finalizing row (.unlocking _) _ => some (.refund row)
  | _ => none

/-- How a process goes on after its balance call. -/
def Process.afterCall (succeeded : Bool) : Process → Process
  | .requesting terms .locking =>
    .requesting terms (if succeeded then .inserting else .thrown .accounts)
  | .requesting terms .compensating => .requesting terms (.thrown .database)
  | .finalizing row (.debiting txHash) rest =>
    if succeeded then .finalizing row (.completing txHash) rest else resume rest
  | .finalizing row (.unlocking reason) rest => .finalizing row (.failing reason) rest
  | process => process

def callStep (process : Process) : Delivery → Option (TransfersStore × Process)
  | .answered => process.nextCall.map fun call =>
    (perform s call, process.afterCall (call.succeeds s.accounts))
  | .unanswered => process.nextCall.map fun call =>
    ({ s with inFlight := s.inFlight ++ [call] }, process.afterCall false)

/-! ### The system -/

/-- Starts of processes, and steps of the rest of the world. A pending row that another
processor has locked is skipped, so any pending row may be the next. -/
def idleStep : Action → Option (TransfersStore × Process)
  | .requestWithdrawal terms =>
    if terms.currency = .eth ∨ terms.currency = .usdt then
      some (s, .requesting terms .checking)
    else some (s, .requesting terms (.thrown (.badRequest (unsupportedCurrency terms.currency))))
  | .processNextWithdrawal id =>
    match s.db.findWithdrawalById id with
    | none => none
    | some row =>
      if row.status = .pending then
        some (setDb s (s.db.updateWithdrawal id WithdrawalRequest.startProcessing),
          .executing row.startProcessing .broadcasting)
      else none
  | .recoverStuckProcessingWithdrawals =>
    some (s, resume s.db.findProcessingWithdrawalsWithTxHash)
  | .mine txHash succeeded => some (mineTransaction s txHash succeeded, .idle)
  | .arrive call =>
    if call ∈ s.inFlight then
      some ({ perform s call with inFlight := s.inFlight.erase call }, .idle)
    else none
  | .accounts request =>
    if Foreign request then
      (accountsMachine.step s.accounts request).map fun r => ({ s with accounts := r.1 }, .idle)
    else none
  | _ => none

def step (_ : ℕ) (s : TransfersStore) : Process → Action → Option (TransfersStore × Process)
  | process, .call delivery => callStep s process delivery
  | .idle, action => idleStep s action
  | .requesting terms progress, action =>
    (requestingStep s terms progress action).map fun r => (r.1, .requesting terms r.2)
  | .executing row progress, action => executingStep s row progress action
  | .finalizing row progress rest, action => finalizingStep s row rest progress action
  | .recovering rest, action => (recoveringStep s rest action).map fun process => (s, process)
  | .finished, _ => none

def withdrawalsSystem : System TransfersStore Process Action := ⟨step⟩

abbrev WithdrawalsConfig := Config TransfersStore Process

def initial : WithdrawalsConfig := ⟨⟨.empty, .empty, [], []⟩, fun _ => .idle⟩

/-! ### What a process is responsible for -/

/-- The terms that a call is about to store, in reliance on a lock. -/
def Process.relying : Process → Option WithdrawalTerms
  | .requesting terms .inserting => some terms
  | _ => none

/-- The terms for which a call has reached a lock that it may still give up. -/
def Process.locked : Process → Option WithdrawalTerms
  | .requesting terms .inserting => some terms
  | .requesting terms .compensating => some terms
  | _ => none

/-- The row that a processor is about to pay out. -/
def Process.picked : Process → Option WithdrawalRequest
  | .executing row .broadcasting => some row
  | _ => none

/-- The rows whose payout has been attempted and that a process still works on. -/
def Process.dispatched : Process → List WithdrawalRequest
  | .executing row (.recording _) => [row]
  | .executing row (.awaitingReceipt _) => [row]
  | .finalizing row _ rest => row :: rest
  | .recovering rest => rest
  | _ => []

variable {rest : List WithdrawalRequest}

@[simp] theorem resume_relying : (resume rest).relying = none := by cases rest <;> rfl

@[simp] theorem resume_locked : (resume rest).locked = none := by cases rest <;> rfl

@[simp] theorem resume_picked : (resume rest).picked = none := by cases rest <;> rfl

@[simp] theorem resume_dispatched : (resume rest).dispatched = rest := by cases rest <;> rfl

end EtherTrade.WithdrawalTransactions
