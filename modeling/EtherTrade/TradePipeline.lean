import EtherTrade.AccountsExactlyOnce
import EtherTrade.CoupledSystems
import EtherTrade.OrderNotifications
import EtherTrade.OrderReservations

/-!
# From orders to settled trades

The orders service with its relay, and the accounts service behind the topic of trades. The
settlement consumers take what has arrived there, any of it, any number of times, while calls
of all kinds are served.
-/

namespace EtherTrade.TradePipeline

open AccountsSchema InterleavedProcesses OutboxRelay OutboxOrderLaws CoupledSystems
open OrdersSchema (OutboxEvent)
open OrderReservations (settledTrade)
open TradeSettlement (KafkaBatchConsumerPayload tradeExecuted)

/-- What the accounts service does next: a step of its own, or the delivery of a message. -/
inductive Request where
  | serve (action : AccountsTransactions.Action)
  | deliver (row : OutboxRow OutboxEvent) (offset actionHeader : String)
  deriving DecidableEq, Repr

/-- The orders service with its relay. -/
abbrev OrdersShared := BridgedOutbox.Shared OrdersTransactions.Shared OutboxEvent
  OrderNotifications.OrderUpdate

abbrev OrdersProcess := BridgedOutbox.Process OrdersTransactions.Process OutboxEvent

section Pipeline

variable (envelopeId : Uuid → Uuid)

/-- The message that carries a row, if it reports a trade. The envelope has an id of its own. -/
def settlementMessage (row : OutboxRow OutboxEvent) (offset actionHeader : String) :
    Option KafkaBatchConsumerPayload :=
  row.event.trade.map fun trade =>
    ⟨offset, some ⟨envelopeId row.id, tradeExecuted, "matching.trade_executed",
      some (settledTrade trade)⟩, actionHeader⟩

/-- Messages come from the topic, everything else from anywhere. -/
def feed (s : OrdersShared) : Request → Option AccountsTransactions.Action
  | .serve (.deliver _) => none
  | .serve action => some action
  | .deliver row offset actionHeader =>
    if row ∈ arrived s.outbox.store then
      (settlementMessage envelopeId row offset actionHeader).map .deliver
    else none

def pipeline : Coupling OrdersShared AccountsTransactions.Shared OrdersProcess
    AccountsTransactions.Process OrderNotifications.NotifyingAction AccountsTransactions.Action
      Request where
  first := OrderNotifications.notifyingSystem
  second := AccountsTransactions.accountsSystem
  feed := feed envelopeId

end Pipeline

abbrev PipelineConfig := Config (OrdersShared × AccountsTransactions.Shared)
  (OrdersProcess × AccountsTransactions.Process)

abbrev PipelineAction := CoupledSystems.Action OrderNotifications.NotifyingAction Request

/-- Empty stores and nothing under way. -/
def initial : PipelineConfig := together OrderNotifications.initial AccountsTransactions.initial

end EtherTrade.TradePipeline
