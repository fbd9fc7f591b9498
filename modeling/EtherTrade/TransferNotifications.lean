import EtherTrade.BridgedOutbox
import EtherTrade.DepositTransactionSteps
import EtherTrade.DomainEventEnvelopes
import EtherTrade.WithdrawalsSchema

/-!
# Notifications of transfers

The deposits system, the relay of the transfers service and the bridge of the gateway, as one
system of interleaved processes. The outbox holds the events of withdrawals too; what commits
them is left open. The credit calls that the accounts service has carried out are recorded, and
read by no statement.
-/

namespace EtherTrade.TransferNotifications

open DecimalNumbers AccountsSchema BalancesService JsonValues DepositsSchema DepositTransactions
open WithdrawalsSchema InterleavedProcesses DomainEventEnvelopes KafkaToWebSocketBridge
open OutboxRelay (OutboxRow)

/-! ### Events -/

/-- What an event of the outbox is about. -/
inductive TransfersEvent where
  | depositConfirmed (event : DepositConfirmedEvent)
  | withdrawal (event : WithdrawalEvent)
  deriving DecidableEq, Repr

def transfersOrigin : Origin := ⟨"transfers", "transfers-service"⟩

def amountText (units : ℤ) : Json := .string (columnText units)

/-- The events with their names and payloads. -/
def TransfersEvent.domainEvent : TransfersEvent → DomainEvent
  | .depositConfirmed event =>
    { aggregateId := event.depositId
      partitionKey := event.userId
      action := "DEPOSIT_CONFIRMED"
      eventType := "transfers.deposit_confirmed"
      payload := fun timestamp => .object [("depositId", .string event.depositId),
        ("userId", .string event.userId), ("currency", .string event.currency.code),
        ("amount", amountText event.amount), ("txHash", .string event.txHash),
        ("blockNumber", .number (.finite event.blockNumber)), ("timestamp", timestamp)] }
  | .withdrawal (.completed withdrawalId userId currency amount txHash) =>
    { aggregateId := withdrawalId
      partitionKey := userId
      action := "WITHDRAWAL_COMPLETED"
      eventType := "transfers.withdrawal_completed"
      payload := fun timestamp => .object [("withdrawalId", .string withdrawalId),
        ("userId", .string userId), ("currency", .string currency.code),
        ("amount", amountText amount.units), ("txHash", .string txHash),
        ("timestamp", timestamp)] }
  | .withdrawal (.failed withdrawalId userId currency amount txHash reason) =>
    { aggregateId := withdrawalId
      partitionKey := userId
      action := "WITHDRAWAL_FAILED"
      eventType := "transfers.withdrawal_failed"
      payload := fun timestamp => .object [("withdrawalId", .string withdrawalId),
        ("userId", .string userId), ("currency", .string currency.code),
        ("amount", amountText amount.units), ("txHash", .string txHash),
        ("reason", .string reason), ("timestamp", timestamp)] }

/-! ### The service -/

structure TransfersStore where
  deposits : DepositsStore
  events : List TransfersEvent
  credited : List CreditDepositFundsRequest

inductive TransfersAction where
  | deposit (action : DepositTransactions.Action)
  | withdrawal (event : WithdrawalEvent)

/-- What a deployment sets for the three services. -/
structure Deployment where
  settings : Settings
  chain : Chain
  appEnv : String
  numberText : JsonNumber → String

/-- The credit call that reaches the accounts service with a step, and the id of the account it
may open. -/
def creditCall (s : DepositsStore) :
    DepositTransactions.Process → DepositTransactions.Action →
      Option (CreditDepositFundsRequest × Uuid)
  | .processing event (.crediting deposit) _, .call (.answered newId) =>
    some (creditRequest deposit event.txHash, newId)
  | .idle, .arrive request newId => if request ∈ s.inFlight then some (request, newId) else none
  | _, _ => none

/-- The credit call that the accounts service carries out with a step. -/
def carriedOut (settings : Settings) (s : DepositsStore) (l : DepositTransactions.Process)
    (action : DepositTransactions.Action) : Option CreditDepositFundsRequest :=
  ((creditCall s l action).filter fun call =>
    (creditDepositFunds settings.isValidUuid call.2 call.1 s.accounts).2.isOk).map Prod.fst

section System

variable (deployment : Deployment) (p : ℕ) (s : TransfersStore) (l : DepositTransactions.Process)

def transfersStep : TransfersAction → Option (TransfersStore × DepositTransactions.Process)
  | .deposit action =>
    (DepositTransactions.step deployment.settings deployment.chain p s.deposits l action).map
      fun r => (⟨r.1, s.events ++
          (r.1.outbox.drop s.deposits.outbox.length).map TransfersEvent.depositConfirmed,
        s.credited ++ (carriedOut deployment.settings s.deposits l action).toList⟩, r.2)
  | .withdrawal event => some ({ s with events := s.events ++ [.withdrawal event] }, l)

def transfersSystem : System TransfersStore DepositTransactions.Process TransfersAction :=
  ⟨transfersStep deployment⟩

theorem events_grow {p : ℕ} {s s' : TransfersStore} {l l' : DepositTransactions.Process}
    {action : TransfersAction} (h : transfersStep deployment p s l action = some (s', l')) :
    s.events <+: s'.events := by
  cases action with
  | deposit action =>
    obtain ⟨r, -, heq⟩ := Option.map_eq_some_iff.mp h
    cases heq
    exact List.prefix_append _ _
  | withdrawal event =>
    cases h
    exact List.prefix_append _ _

/-- The transfers service with its relay and the bridge. -/
def transfersService : BridgedOutbox.Service TransfersStore DepositTransactions.Process
    TransfersAction TransfersEvent Context PubSubMsg where
  system := transfersSystem deployment
  committed := TransfersStore.events
  grows _ _ _ _ _ _ h := events_grow deployment h
  messages context row := bridgeMessages deployment.appEnv transfersOrigin context row.id
    row.event.domainEvent deployment.numberText

end System

abbrev Shared := BridgedOutbox.Shared TransfersStore TransfersEvent PubSubMsg

abbrev Action := BridgedOutbox.Action TransfersAction TransfersEvent Context

abbrev NotifyingConfig :=
  BridgedOutbox.BridgedConfig TransfersStore DepositTransactions.Process TransfersEvent PubSubMsg

def notifyingSystem (deployment : Deployment) :
    System Shared (BridgedOutbox.Process DepositTransactions.Process TransfersEvent) Action :=
  BridgedOutbox.bridgedSystem (transfersService deployment)

/-- Nothing is stored and nothing under way. -/
def initial : NotifyingConfig :=
  BridgedOutbox.initial
    ⟨⟨DepositTransactions.initial.shared, [], []⟩, DepositTransactions.initial.procs⟩

end EtherTrade.TransferNotifications
