import EtherTrade.OrderSagas

/-!
# The orders and the accounts services under load

Any number of calls of the orders service, each step or balance call of theirs one step
here, and between them the requests that others make to the accounts service. A
cancellation returns what its order still reserves by one of these balance calls.
-/

namespace EtherTrade.TradingServices

open DecimalNumbers AccountsSchema OrdersSchema OrdersTransactions InterleavedProcesses
open BalancesService SequentialRequests
open OrderSagas (Services)

/-- A step of a call of the orders service, or a request of somebody else to the accounts
service. -/
inductive Action where
  | saga (action : OrderSagas.Action)
  | accounts (request : Request)

section Steps

variable (isValidUuid : String → Bool)

def step (p : ℕ) (s : Services) : Process → Action → Option (Services × Process)
  | l, .saga action => OrderSagas.step isValidUuid p s l action
  | .idle, .accounts request =>
    (accountsMachine.step s.accounts request).map fun r => (⟨s.orders, r.1⟩, .idle)
  | _, .accounts _ => none

def tradingSystem : System Services Process Action := ⟨step isValidUuid⟩

end Steps

abbrev TradingConfig := Config Services Process

/-- Empty stores and nothing under way. -/
def initial : TradingConfig := ⟨⟨OrdersTransactions.initial.shared, .empty⟩, fun _ => .idle⟩

/-! ### The reserve of an order -/

/-- What an order reserves for what remains of it: of the quote currency its limit price times
the rest, of the base currency the rest. -/
def reserveOf (item : OrderItem) : ℚ :=
  match item.side with
  | .buy => item.price / scale * (item.remainingAmount / scale)
  | .sell => item.remainingAmount / scale

def reserveCurrency (item : OrderItem) : Currency :=
  match item.side with
  | .buy => item.pair.quote
  | .sell => item.pair.base

/-- The reserve of the order has gone from locked to available of its owner. -/
def MovesReserve (item : OrderItem) (before after : AccountsDb) : Prop :=
  ∃ (units : ℤ) (balances : Balances), (units / scale : ℚ) = reserveOf item ∧
    accountBalances before item.userId (reserveCurrency item) = some balances ∧
      accountBalances after item.userId (reserveCurrency item) = some (balances + (units, -units))

/-- A cancellation of the order has its unlock served, and the unlock moves funds. -/
def releases (isValidUuid : String → Bool) (orderId : Uuid)
    (t : System.Transition Services Process Action) : Bool :=
  match t.before.procs t.event.proc, t.event.action with
  | .cancelling request (.awaitingUnlock cancelledOrder), .saga (.balanceCall delivery _) =>
    decide (request.orderId = orderId) && decide (delivery ≠ .undelivered) &&
      takesEffect isValidUuid (unlockRequest request cancelledOrder) t.before.shared.accounts
  | _, _ => false

/-- In a schedule from the start, cancellations of the order have moved funds once, and what
they moved is its reserve. An order that reserves nothing has nothing to move. -/
structure ReleasedOnce (isValidUuid : String → Bool) (es : List (Event Action))
    (item : OrderItem) : Prop where
  once : (((tradingSystem isValidUuid).transitions initial es).filter
    (releases isValidUuid item.orderId)).length = if reserveOf item = 0 then 0 else 1
  moves : ∀ t ∈ (tradingSystem isValidUuid).transitions initial es,
    releases isValidUuid item.orderId t = true →
      MovesReserve item t.before.shared.accounts t.after.shared.accounts

end EtherTrade.TradingServices
