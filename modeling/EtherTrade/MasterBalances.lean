import EtherTrade.MasterTradeReplication
import EtherTrade.OrderReservations
import EtherTrade.OrderSagas

/-!
# Balances of masters behind the replication of their trades

The copy trading service, the orders service, whose calls lock funds at the accounts service,
and that service with all its other requests, as one system. A balance that replication asks
for comes from a cache whose entries live for five seconds, or from the accounts service; each
of these may fail, and without a balance `getMasterOrFollowerBalance` answers zero.

What there was just before a call had its funds locked is remembered for the order that it
places, and a process that has read a balance remembers for which order it did.
-/

namespace EtherTrade.MasterBalances

open DecimalNumbers AccountsSchema OrdersSchema BalanceMutations BalancesService
open InterleavedProcesses SequentialRequests OrderReservations
open OrderSagas (Delivery Services)
open MasterTradeReplication (CopyStore ReplicationSideTask)

def masterBalanceCacheTtlSeconds : ℕ := 5

structure CachedBalance where
  available : BigNumber
  expiresAt : ℕ

/-- What there is just before the funds of a new order are locked. -/
structure Placement where
  accounts : AccountsDb
  orders : OrdersDb
  cached : Uuid × Currency → Option BigNumber

/-- `locked` is what there was before the lock of a call, `placed` before that of an order. -/
structure ExchangeStore where
  copying : CopyStore
  accounts : AccountsDb
  balances : Uuid × Currency → Option CachedBalance
  locked : ℕ → Option Placement
  placed : Uuid → Option Placement

/-- What becomes of the commands and the call of a balance read, and the id that an account it
opens would get. -/
structure BalanceRead where
  cacheRead : Bool
  delivery : Delivery
  cacheWritten : Bool
  newId : Uuid
  deriving DecidableEq, Repr

variable (isValidUuid : String → Bool) (s : ExchangeStore)

/-- The balance of a key that is cached and has not expired. -/
def ExchangeStore.cached (key : Uuid × Currency) : Option BigNumber :=
  ((s.balances key).filter fun entry => s.copying.now < entry.expiresAt).map CachedBalance.available

/-- `getBalance` of the accounts service. -/
def getBalance (newId userId : Uuid) (currency : Currency) (db : AccountsDb) :
    AccountsDb × Option Account :=
  match validateUserId isValidUuid userId, normalizeCurrency currency with
  | .ok userId, .ok currency =>
    let found := findOrCreate newId userId currency db
    (found.1, found.2.toOption)
  | _, _ => (db, none)

def getMasterOrFollowerBalance (read : BalanceRead) (userId : Uuid) (currency : Currency) :
    ExchangeStore × BigNumber :=
  match if read.cacheRead then s.cached (userId, currency) else none with
  | some available => (s, available)
  | none =>
    let served := getBalance isValidUuid read.newId userId currency s.accounts
    match read.delivery, served.2 with
    | .answered, some account =>
      let available := BigNumber.finite (account.availableBalance / scale)
      let entry := ⟨available, s.copying.now + masterBalanceCacheTtlSeconds * 1000⟩
      ({ s with
          accounts := served.1
          balances := if read.cacheWritten then
              Function.update s.balances (userId, currency) (some entry)
            else s.balances }, available)
    | .undelivered, _ => (s, .finite 0)
    | _, _ => ({ s with accounts := served.1 }, .finite 0)

/-- The currency of the balance that a copy is sized on. -/
def balanceCurrency (task : ReplicationSideTask) : Currency :=
  match task.side with
  | .buy => .usdt
  | .sell => task.pair.base

/-- The order of the master in a committed trade that a message carries. -/
def tradedOrder (trade : TradeSettlement.TradeExecutedEvent) (side : OrderSide) : Option Uuid :=
  (s.copying.orders.shared.store.db.trades.find? fun e => settledTrade e = trade).map fun e =>
    match side with
    | .buy => e.buyOrderId
    | .sell => e.sellOrderId

/-! ### Steps -/

/-- A process that replicates, and what there was before the order whose balance it has read. -/
abbrev Process := MasterTradeReplication.Process × Option Placement

/-- A step of replication other than the read of a balance, that read, a read by somebody else,
a step of a call of the orders service, or a request to the accounts service. -/
inductive Action where
  | copying (action : MasterTradeReplication.Action)
  | balance (read : BalanceRead)
  | getBalance (userId : Uuid) (currency : Currency) (read : BalanceRead)
  | saga (call : ℕ) (action : OrderSagas.Action)
  | accounts (request : Request)

def placementNow : Placement := ⟨s.accounts, s.copying.orders.shared.store.db, s.cached⟩

/-- The call has its lock served. -/
def servesLock : OrdersTransactions.Process → OrderSagas.Action → Bool
  | .creating _ (.awaitingLock _), .balanceCall _ _ => true
  | _, _ => false

/-- The id of the row that the call inserts. -/
def insertedOrder : OrdersTransactions.Process → OrderSagas.Action → Option Uuid
  | .creating _ (.placing _ .inserting), .orders (.insert newId) => some newId
  | _, _ => none

def sagaStep (call : ℕ) (action : OrderSagas.Action) : Option ExchangeStore :=
  let process := s.copying.orders.procs call
  (OrderSagas.step isValidUuid call ⟨s.copying.orders.shared, s.accounts⟩ process action).map
    fun r =>
      { s with
        copying := { s.copying with
          orders := ⟨r.1.orders, Function.update s.copying.orders.procs call r.2⟩ }
        accounts := r.1.accounts
        locked := if servesLock process action then
            Function.update s.locked call (some (placementNow s))
          else s.locked
        placed := match insertedOrder process action with
          | some orderId => Function.update s.placed orderId (s.locked call)
          | none => s.placed }

/-- Balances are read, and calls of the orders service go on, by steps of their own. -/
def copyingStep (l : Process) : MasterTradeReplication.Action → Option (ExchangeStore × Process)
  | .balance _ => none
  | .orders _ => none
  | action => (MasterTradeReplication.step s.copying l.1 action).map fun r =>
      ({ s with copying := r.1 }, (r.2, l.2))

def balanceStep (read : BalanceRead) : Process → Option (ExchangeStore × Process)
  | (.handling h, _) =>
    match h.point with
    | .balancing task _ =>
      let answer := getMasterOrFollowerBalance isValidUuid s read task.masterUserId
        (balanceCurrency task)
      (MasterTradeReplication.step answer.1.copying (.handling h) (.balance answer.2)).map fun r =>
        ({ answer.1 with copying := r.1 }, (r.2, (tradedOrder s h.trade task.side).bind s.placed))
    | _ => none
  | _ => none

def step : Process → Action → Option (ExchangeStore × Process)
  | l, .copying action => copyingStep s l action
  | l, .balance read => balanceStep isValidUuid s read l
  | (.idle, placement), .getBalance userId currency read =>
    some ((getMasterOrFollowerBalance isValidUuid s read userId currency).1, (.idle, placement))
  | (.idle, placement), .saga call action =>
    (sagaStep isValidUuid s call action).map fun s' => (s', (.idle, placement))
  | (.idle, placement), .accounts request =>
    (accountsMachine.step s.accounts request).map fun r =>
      ({ s with accounts := r.1 }, (.idle, placement))
  | _, _ => none

def exchangeSystem : System ExchangeStore Process Action := ⟨fun _ => step isValidUuid⟩

abbrev ExchangeConfig := Config ExchangeStore Process

/-- Empty stores and nothing under way. -/
def initial : ExchangeConfig :=
  ⟨⟨MasterTradeReplication.initial.shared, .empty, fun _ => none, fun _ => none, fun _ => none⟩,
    fun _ => (.idle, none)⟩

end EtherTrade.MasterBalances
