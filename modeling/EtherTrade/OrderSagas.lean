import EtherTrade.BalancesService

/-!
# The orders service together with the accounts service

A process of the orders service and the accounts database, each in its own store. A
balance call is served between its request and its reply. It may fail on the way, before
or after it is served; then the caller sees an error, and does not know which.
-/

namespace EtherTrade.OrderSagas

open AccountsSchema OrdersSchema OrdersTransactions InterleavedProcesses BalancesService

structure Services where
  orders : OrdersTransactions.Shared
  accounts : AccountsDb

/-- What becomes of a balance call: it is served and answered; it is served, and the answer
is lost; or it does not get through, or its transaction is rolled back. -/
inductive Delivery where
  | answered
  | unanswered
  | undelivered
  deriving DecidableEq, Repr

/-- A step of the orders service alone, or a balance call with the text that its caller reads
if it fails. -/
inductive Action where
  | orders (action : OrdersTransactions.Action)
  | balanceCall (delivery : Delivery) (message : String)
  deriving DecidableEq, Repr

/-- The request whose reply a call waits for. -/
def pendingRequest : Process → Option BalanceRequest
  | .creating request (.awaitingLock _) =>
    some (balanceRequest .lockBalance "lock:" request.val)
  | .creating request (.awaitingUnlock _) =>
    some (balanceRequest .unlockBalance "unlock:" request.val)
  | .cancelling request (.awaitingUnlock cancelledOrder) =>
    some (unlockRequest request cancelledOrder)
  | _ => none

section Steps

variable (isValidUuid : String → Bool)

/-- The accounts database after a balance call, and the reply to it. -/
def deliver (delivery : Delivery) (message : String) (request : BalanceRequest) (db : AccountsDb) :
    AccountsDb × BalanceReply :=
  let served := serve isValidUuid request db
  match delivery with
  | .answered =>
    match served.2 with
    | .ok _ => (served.1, .ok)
    | .error _ => (served.1, .error message)
  | .unanswered => (served.1, .error message)
  | .undelivered => (db, .error message)

def step (p : ℕ) (s : Services) (l : Process) : Action → Option (Services × Process)
  | .orders (.reply _) => none
  | .orders action =>
    (OrdersTransactions.step p s.orders l action).map fun r => (⟨r.1, s.accounts⟩, r.2)
  | .balanceCall delivery message =>
    (pendingRequest l).bind fun request =>
      let delivered := deliver isValidUuid delivery message request s.accounts
      (OrdersTransactions.step p s.orders l (.reply delivered.2)).map fun r =>
        (⟨r.1, delivered.1⟩, r.2)

def sagaSystem : System Services Process Action := ⟨step isValidUuid⟩

end Steps

/-! ### Moments that matter for the funds of an order -/

/-- The lock of an order moves funds, and its caller learns of it or does not; the order is
committed, and its caller learns of it or does not; the unlock that compensates moves funds. -/
inductive Moment where
  | lockHeard
  | lockLost
  | commitHeard
  | commitLost
  | unlocked
  deriving DecidableEq, Repr

/-- The moment that a step of a call is. -/
def moment (isValidUuid : String → Bool) (s : Services) : Process → Action → Option Moment
  | .creating request (.awaitingLock _), .balanceCall delivery _ =>
    if takesEffect isValidUuid (balanceRequest .lockBalance "lock:" request.val) s.accounts then
      match delivery with
      | .answered => some .lockHeard
      | .unanswered => some .lockLost
      | .undelivered => none
    else none
  | .creating _ (.placing _ (.active _ .committing)), .orders .statement => some .commitHeard
  | .creating _ (.placing _ (.active _ .committing)), .orders .commitUnacknowledged =>
    some .commitLost
  | .creating request (.awaitingUnlock _), .balanceCall delivery _ =>
    if delivery ≠ .undelivered ∧
        takesEffect isValidUuid (balanceRequest .unlockBalance "unlock:" request.val) s.accounts then
      some .unlocked
    else none
  | _, _ => none

/-- The moments of a process that runs alone. -/
def moments (isValidUuid : String → Bool) (p : ℕ) (s : Services) (l : Process)
    (actions : List Action) : List Moment :=
  (sagaSystem isValidUuid).observed p (moment isValidUuid) s l actions

/-! ### The claim about a call that has thrown -/

/-- What the lock of an order moves to locked. -/
def lockUnits (request : CreateOrderRequest) : ℤ := ((lockAmount request).toNumeric).getD 0

/-- The call has committed an order row. -/
def Placed (request : CreateOrderRequest) (before after : OrdersDb) : Prop :=
  ∃ order, before.findById order.id = none ∧ after.findById order.id = some order ∧
    order.userId = request.userId ∧ order.idempotencyKey = request.idempotencyKey

def lockedFor (request : CreateOrderRequest) (db : AccountsDb) : ℤ :=
  lockedOf db request.userId (lockCurrency request)

/-- Either the order is committed and what was locked for it is locked, or it is not, and
nothing is. -/
def Compensated (request : CreateOrderRequest) (before after : Services) : Prop :=
  Placed request before.orders.store.db after.orders.store.db ∧
      lockedFor request after.accounts = lockedFor request before.accounts + lockUnits request ∨
    ¬Placed request before.orders.store.db after.orders.store.db ∧
      lockedFor request after.accounts ≤ lockedFor request before.accounts

/-- The call for the request has thrown. -/
def Thrown (request : CreateOrderRequest) : Process → Prop
  | .refused _ => True
  | .creating valid (.thrown _) => valid.val = request
  | _ => False

end EtherTrade.OrderSagas
