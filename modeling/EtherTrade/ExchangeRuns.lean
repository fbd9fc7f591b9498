import EtherTrade.OrderReservations
import EtherTrade.OrderSagas
import EtherTrade.SequentialOrders

/-!
# Calls, deposits and settlements

The orders service and the accounts service over a run in which nothing fails. Calls of the
orders service follow one another. While a call waits for the accounts service, or has yet
to run its transaction, funds are deposited and committed trades are settled. An event of
the outbox is delivered any number of times, at any time after its commit.
-/

namespace EtherTrade.ExchangeRuns

open DecimalNumbers KeyedRows AccountsSchema OrdersSchema OrderBook OrdersTransactions
open SequentialOrders BalanceMutations BalancesService OrderSagas SequentialRequests
open OrderReservations (settledTrade AtMostEightDecimals)
open TradeSettlement (KafkaBatchConsumerPayload Participant handleMessage tradeExecuted)

/-- What the current call of the orders service does next: there is none; its lock is
served; its transaction runs, or what follows from the reply to the lock; its unlock is
served. -/
inductive Waiting where
  | idle
  | forLock (request : ValidRequest) (ids : NewIds)
  | forTransaction (request : ValidRequest) (ids : NewIds) (lockReply : BalanceReply)
  | forUnlock (request : BalanceRequest)

structure Exchange where
  orders : OrdersStore
  accounts : AccountsDb
  waiting : Waiting

def Exchange.empty : Exchange := ⟨⟨.empty, .empty, [], 0⟩, .empty, .idle⟩

/-- What happens next. A balance call comes with the text that its caller reads if it is
refused, and a delivery with the number of its event in the outbox. -/
inductive Event where
  | createOrder (request : CreateOrderRequest) (ids : NewIds)
  | cancelOrder (request : CancelOrderRequest)
  | balanceCall (message : String)
  | transaction
  | passTime (ms : ℕ)
  | deposit (newId : Uuid) (params : BalanceParams)
  | creditDeposit (newId : Uuid) (params : BalanceParams)
  | deliver (n : ℕ) (offset actionHeader : String) (newIds : Participant → Uuid)

/-- The prices and amounts of orders have at most eight decimals. -/
def Event.WholeUnits : Event → Prop
  | .createOrder request _ =>
    AtMostEightDecimals request.price ∧ AtMostEightDecimals request.amount
  | _ => True

/-- A call of `createOrder` up to its lock. -/
def startOrder (s : OrdersStore) (request : ValidRequest) (ids : NewIds) : OrdersStore × Waiting :=
  match findOutcome s request.val with
  | some _ => (s, .idle)
  | none =>
    if recordExists s request.val ids.recordId then (s, .idle)
    else (lockSent s request.val ids.recordId, .forLock request ids)

/-- A transaction may have sent an unlock. -/
def waitingFor (before after : OrdersStore) : Waiting :=
  match after.balanceRequests.drop before.balanceRequests.length with
  | request :: _ => .forUnlock request
  | [] => .idle

section Steps

variable (isValidUuid : String → Bool) (eventIds : ℕ → Uuid)

/-- The message that carries an event of the outbox, if it reports a trade. -/
def settlementMessage (db : OrdersDb) (n : ℕ) (offset actionHeader : String) :
    Option KafkaBatchConsumerPayload :=
  (db.outboxEvents[n]?.bind OutboxEvent.trade).map fun trade =>
    ⟨offset, some ⟨eventIds n, tradeExecuted, "matching.trade_executed", some (settledTrade trade)⟩,
      actionHeader⟩

/-- A delivery finds accounts or opens them with ids that are not in use. -/
def settle (payload : KafkaBatchConsumerPayload) (newIds : Participant → Uuid) (db : AccountsDb) :
    Option AccountsDb :=
  if (Request.deliver payload newIds).Fresh db then some (handleMessage payload newIds db).1
  else none

def step (s : Exchange) : Event → Option Exchange
  | .createOrder request ids =>
    match s.waiting with
    | .idle =>
      if h : validateCreateOrderRequest request = none then
        let started := startOrder s.orders ⟨request, h⟩ ids
        some ⟨started.1, s.accounts, started.2⟩
      else some s
    | _ => none
  | .cancelOrder request =>
    match s.waiting with
    | .idle =>
      let orders := (SequentialOrders.cancelOrder s.orders request).1
      some ⟨orders, s.accounts, waitingFor s.orders orders⟩
    | _ => none
  | .balanceCall message =>
    match s.waiting with
    | .forLock request ids =>
      let delivered := OrderSagas.deliver isValidUuid .answered message
        (balanceRequest .lockBalance "lock:" request.val) s.accounts
      some ⟨s.orders, delivered.1, .forTransaction request ids delivered.2⟩
    | .forUnlock request => some ⟨s.orders, (serve isValidUuid request s.accounts).1, .idle⟩
    | _ => none
  | .transaction =>
    match s.waiting with
    | .forTransaction request ids lockReply =>
      let orders := (answered s.orders request.val ids lockReply).1
      some ⟨orders, s.accounts, waitingFor s.orders orders⟩
    | _ => none
  | .passTime ms => some { s with orders := { s.orders with now := s.orders.now + ms } }
  | .deposit newId params =>
    some { s with accounts := (BalanceMutations.deposit newId params s.accounts).1 }
  | .creditDeposit newId params =>
    some { s with accounts := (BalanceMutations.creditDeposit newId params s.accounts).1 }
  | .deliver n offset actionHeader newIds =>
    (settlementMessage eventIds s.orders.db n offset actionHeader).bind fun payload =>
      (settle payload newIds s.accounts).map fun accounts => { s with accounts }

/-- The exchange after a run, if each of its events can happen when it is due. -/
def exec : Exchange → List Event → Option Exchange
  | s, [] => some s
  | s, e :: es => (step isValidUuid eventIds s e).bind fun t => exec t es

end Steps

/-- The key of the ledger row that a balance call writes. -/
def ledgerKey (request : BalanceRequest) : String := trim request.idempotencyKey

variable {isValidUuid : String → Bool} {eventIds : ℕ → Uuid} {s t : Exchange} {es : List Event}
  {request : ValidRequest} {ids : NewIds}

/-- A call whose steps follow one another does what `createOrder` does. -/
theorem createOrder_uninterrupted (store : OrdersStore) (lockReply : BalanceReply) :
    (startOrder store request ids = (store, .idle) ∧
        (createOrder store request.val ids lockReply).1 = store) ∨
      ((startOrder store request ids).2 = .forLock request ids ∧
        (createOrder store request.val ids lockReply).1 =
          (answered (startOrder store request ids).1 request.val ids lockReply).1) := by
  rw [createOrder, startOrder]
  cases findOutcome store request.val with
  | some outcome => exact Or.inl ⟨rfl, rfl⟩
  | none =>
    by_cases hrecord : recordExists store request.val ids.recordId = true
    · exact Or.inl ⟨if_pos hrecord, congrArg Prod.fst (if_pos hrecord)⟩
    · simp only [hrecord, if_false, Bool.false_eq_true]
      exact Or.inr ⟨trivial, trivial⟩

/-- What each step keeps, a run keeps. -/
theorem exec_invariant {I : Exchange → Prop} {allowed : Event → Prop}
    (hstep : ∀ s e t, allowed e → step isValidUuid eventIds s e = some t → I s → I t)
    (hs : I s) (hallowed : ∀ e ∈ es, allowed e) (h : exec isValidUuid eventIds s es = some t) :
    I t := by
  induction es generalizing s with
  | nil =>
    obtain rfl := Option.some.inj h
    exact hs
  | cons e es ih =>
    obtain ⟨m, hm, hrest⟩ := Option.bind_eq_some_iff.mp h
    exact ih (hstep s e m (hallowed e List.mem_cons_self) hm hs)
      (fun x hx => hallowed x (List.mem_cons_of_mem _ hx)) hrest

end EtherTrade.ExchangeRuns
