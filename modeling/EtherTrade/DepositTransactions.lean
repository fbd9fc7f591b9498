import EtherTrade.DepositsSchema
import EtherTrade.InterleavedProcesses
import EtherTrade.SequentialRequests

/-!
# Concurrent deposit scanners

Polls of the deposit scanner and calls of `processDepositEvent` as interleaved processes,
one statement, RPC to the node or credit call at a time. A process may stop after any step;
a scanner that starts again is another process. Any step may fail: a poll catches the
failure and ends, and so does the crediting of a deposit. A commit may take effect although
its acknowledgement is lost.

A credit call takes effect in the accounts database in one step. Where its caller sees an
error without an answer, the call is still in flight: it may take effect later, or never.
The rest of the platform calls the accounts service too, but no other caller credits
deposits.
-/

namespace EtherTrade.DepositTransactions

open KeyedRows AccountsSchema BalanceMutations SequentialRequests DepositsSchema
open InterleavedProcesses

/-- What a deployment sets, and the library's check of user ids. -/
structure Settings where
  confirmations : ℕ
  usdtTokenAddress : String
  isValidUuid : String → Bool

/-- The databases of both services, and the credit calls in flight. The heads that scanners
have observed and the calls of `scanRange` that have begun and that have completed are
recorded too, and read by no statement. -/
structure DepositsStore where
  accounts : AccountsDb
  lastScannedBlock : Option ℕ
  deposits : List WalletDeposit
  outbox : List DepositConfirmedEvent
  inFlight : List CreditDepositFundsRequest
  observed : List ℕ
  scans : List BlockRange
  scanned : List BlockRange

/-- How far `pollBlocks` is. Inside `scanRange` it has `rest` left of the logs it got. -/
inductive Polling where
  | begun
  | observed (currentBlock : ℕ)
  | resetting (currentBlock : ℕ)
  | scanning (range : BlockRange)
  | nativeLogs (range : BlockRange) (rest : List DepositEvent)
  | tokenLogs (range : BlockRange) (rest : List DepositEvent)
  | scanned (toBlock : ℕ)
  deriving DecidableEq, Repr

/-- How far `processDepositEvent` is. -/
inductive Processing where
  | finding
  | inserting (deposit : NewWalletDeposit)
  | crediting (deposit : WalletDeposit)
  | marking (deposit : WalletDeposit)
  deriving DecidableEq, Repr

/-- A call of `processDepositEvent` returns to the poll that made it, if one did. -/
inductive Process where
  | idle
  | polling (progress : Polling)
  | processing (event : DepositEvent) (progress : Processing) (caller : Option Polling)
  deriving DecidableEq, Repr

/-- What becomes of a credit call: it is answered, or the caller sees an error instead. -/
inductive Delivery where
  | answered (newId : Uuid)
  | unanswered
  deriving DecidableEq, Repr

/-- What a process can do: start, learn the head of the chain, run its next statement,
insert a row with a new id, make its credit call, or fail. The rest of the world lets a call
in flight arrive and calls the accounts service. -/
inductive Action where
  | pollBlocks
  | processDepositEvent (event : DepositEvent)
  | getBlockNumber (currentBlock : ℕ)
  | statement
  | insert (newId : Uuid)
  | insertUnacknowledged (newId : Uuid)
  | call (delivery : Delivery)
  | abort
  | arrive (request : CreditDepositFundsRequest) (newId : Uuid)
  | accounts (request : Request)

/-- A request that does not come from the transfers service. -/
def Foreign : Request → Prop
  | .call op _ _ => op ≠ .creditDeposit
  | .deliver _ _ => True

instance (request : Request) : Decidable (Foreign request) :=
  match request with
  | .call _ _ _ => inferInstanceAs (Decidable (_ ≠ _))
  | .deliver _ _ => inferInstanceAs (Decidable True)

def maxBlockRange : ℕ := 2000

/-- The end of a call of `processDepositEvent`: its caller goes on. -/
def resume : Option Polling → Process
  | none => .idle
  | some progress => .polling progress

variable (settings : Settings) (chain : Chain) (s : DepositsStore)

/-! ### Repository -/

def findDepositByTxHash (txHash : String) : Option WalletDeposit :=
  lookup (fun deposit : WalletDeposit => deposit.txHash) s.deposits txHash

/-- The row is stored unless a unique index or the type of the amount refuses it; with a
confirmed deposit goes its event. -/
def createDeposit (deposit : NewWalletDeposit) (newId : Uuid) : Option DepositsStore :=
  let row : WalletDeposit := { deposit with id := newId }
  if (findDepositByTxHash s deposit.txHash).isSome ||
      (lookup WalletDeposit.id s.deposits newId).isSome || decide (10 ^ 28 ≤ deposit.amount) then
    none
  else some { s with
    deposits := s.deposits ++ [row]
    outbox := if deposit.status = .confirmed then s.outbox ++ [confirmedEvent row] else s.outbox }

def updateDepositStatus (id : Uuid) (status : DepositStatus) : DepositsStore :=
  { s with deposits := s.deposits.map fun row => if row.id = id then { row with status } else row }

/-! ### pollBlocks -/

/-- The scan of the next blocks, when there are some below the safe target. -/
def scanFrom (currentBlock fromBlock : ℕ) : DepositsStore × Process :=
  let safeTargetBlock := currentBlock - settings.confirmations
  if fromBlock ≤ safeTargetBlock then
    let range := ⟨fromBlock, min (fromBlock + maxBlockRange - 1) safeTargetBlock⟩
    ({ s with scans := s.scans ++ [range] }, .polling (.scanning range))
  else (s, .idle)

def pollingStep : Polling → Action → Option (DepositsStore × Process)
  | .begun, .getBlockNumber currentBlock =>
    some ({ s with observed := s.observed ++ [currentBlock] }, .polling (.observed currentBlock))
  | .observed currentBlock, .statement =>
    match s.lastScannedBlock with
    | none => some (scanFrom settings s currentBlock 0)
    | some lastScanned =>
      if currentBlock < lastScanned then some (s, .polling (.resetting currentBlock))
      else some (scanFrom settings s currentBlock (lastScanned + 1))
  | .resetting currentBlock, .statement =>
    some (scanFrom settings { s with lastScannedBlock := some 0 } currentBlock 1)
  | .scanning range, .statement => some (s, .polling (.nativeLogs range (chain.nativeLogs range)))
  | .nativeLogs range (log :: rest), .statement =>
    some (s, .processing log .finding (some (.nativeLogs range rest)))
  | .nativeLogs range [], .statement =>
    some (s, .polling (.tokenLogs range (chain.tokenLogs range)))
  | .tokenLogs range (log :: rest), .statement =>
    some (s, .processing log .finding (some (.tokenLogs range rest)))
  | .tokenLogs range [], .statement =>
    some ({ s with scanned := s.scanned ++ [range] }, .polling (.scanned range.toBlock))
  | .scanned toBlock, .statement => some ({ s with lastScannedBlock := some toBlock }, .idle)
  | _, .abort => some (s, .idle)
  | _, _ => none

/-! ### processDepositEvent -/

def processingStep (event : DepositEvent) (caller : Option Polling) :
    Processing → Action → Option (DepositsStore × Process)
  | .finding, .statement =>
    match findDepositByTxHash s event.txHash with
    | some existing =>
      if existing.status = .confirmed then
        some (s, .processing event (.crediting existing) caller)
      else some (s, resume caller)
    | none =>
      match newDeposit settings.usdtTokenAddress event with
      | .error _ => some (s, resume caller)
      | .ok deposit => some (s, .processing event (.inserting deposit) caller)
  | .inserting deposit, .insert newId =>
    match createDeposit s deposit newId with
    | none => some (s, .idle)
    | some stored =>
      if deposit.status = .confirmed then
        some (stored, .processing event (.crediting { deposit with id := newId }) caller)
      else some (stored, resume caller)
  | .inserting deposit, .insertUnacknowledged newId =>
    (createDeposit s deposit newId).map fun stored => (stored, .idle)
  | .crediting deposit, .call (.answered newId) =>
    match creditDepositFunds settings.isValidUuid newId (creditRequest deposit event.txHash)
        s.accounts with
    | (accounts, .ok _) => some ({ s with accounts }, .processing event (.marking deposit) caller)
    | (accounts, .error _) => some ({ s with accounts }, resume caller)
  | .crediting deposit, .call .unanswered =>
    some ({ s with inFlight := s.inFlight ++ [creditRequest deposit event.txHash] }, resume caller)
  | .marking deposit, .statement => some (updateDepositStatus s deposit.id .credited, resume caller)
  -- a status update that fails is caught like a failed credit
  | .marking _, .abort => some (s, resume caller)
  | .finding, .abort => some (s, .idle)
  | .inserting _, .abort => some (s, .idle)
  | _, _ => none

/-! ### The system -/

/-- Starts of processes, and steps of the rest of the world. -/
def idleStep : Action → Option (DepositsStore × Process)
  | .pollBlocks => some (s, .polling .begun)
  | .processDepositEvent event =>
    if event ∈ chain.logs then some (s, .processing event .finding none) else none
  | .arrive request newId =>
    if request ∈ s.inFlight then
      some ({ s with
        accounts := (creditDepositFunds settings.isValidUuid newId request s.accounts).1
        inFlight := s.inFlight.erase request }, .idle)
    else none
  | .accounts request =>
    if Foreign request then
      (accountsMachine.step s.accounts request).map fun r => ({ s with accounts := r.1 }, .idle)
    else none
  | _ => none

def step (_ : ℕ) (s : DepositsStore) : Process → Action → Option (DepositsStore × Process)
  | .idle, action => idleStep settings chain s action
  | .polling progress, action => pollingStep settings chain s progress action
  | .processing event progress caller, action =>
    processingStep settings s event caller progress action

def depositsSystem : System DepositsStore Process Action := ⟨step settings chain⟩

abbrev DepositsConfig := Config DepositsStore Process

/-- Empty databases, no cursor, and nothing under way. -/
def initial : DepositsConfig := ⟨⟨.empty, none, [], [], [], [], [], []⟩, fun _ => .idle⟩

end EtherTrade.DepositTransactions
