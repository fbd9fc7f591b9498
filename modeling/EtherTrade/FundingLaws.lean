import EtherTrade.BookAgreementLaws
import EtherTrade.LockedFunds
import EtherTrade.OrderCompensationLaws

/-!
# Locked funds against what may be taken from them

Over calls that follow one another, with deposits and deliveries in between, what is locked
for a user covers what the open orders still reserve and what committed trades have yet to
take. A settlement and the unlock of a cancelled order then find what they take.
-/

namespace EtherTrade.FundingLaws

open DecimalNumbers KeyedRows AccountsSchema OrdersSchema OrderBook MatchingEngine
open OrdersTransactions OrdersTransactionInvariants AccountsDbInvariants SequentialOrders OpenOrders
open OrderFillLaws (limitOrder)
open OrderReservations BalanceMutations BalancesService OrderSagas OrderCompensationLaws
open BookAgreementLaws ReservedFunds ExchangeRuns LockedFunds

variable {isValidUuid : String → Bool} {eventIds : ℕ → Uuid} {s t : Exchange}
  {orders : OrdersStore} {accounts : AccountsDb} {waiting : Waiting} {events : List OutboxEvent}
  {owner : Uuid × Currency} {request : ValidRequest} {ids : NewIds} {order : Order}
  {requests : List BalanceRequest}

/-! ### Trades that are not settled -/

/-- What the settlement of an event takes from the owner's locked funds. -/
def takenByEvent (owner : Uuid × Currency) (event : OutboxEvent) : ℤ :=
  (event.trade.map (takenBy owner)).getD 0

/-- What the committed trades that are not settled will take. -/
def unsettledFunds (eventIds : ℕ → Uuid) (owner : Uuid × Currency) (events : List OutboxEvent)
    (accounts : AccountsDb) : ℤ :=
  ∑ n ∈ Finset.range events.length, if accounts.isEventProcessed (eventIds n) = true then 0
    else (events[n]?.map (takenByEvent owner)).getD 0

theorem sum_takenByEvent : (events.map (takenByEvent owner)).sum =
    ((events.filterMap OutboxEvent.trade).map (takenBy owner)).sum := by
  induction events with
  | nil => rfl
  | cons event events ih =>
    rw [List.map_cons, List.sum_cons, ih, takenByEvent]
    cases htrade : event.trade with
    | none => rw [List.filterMap_cons_none htrade, Option.map_none, Option.getD_none, zero_add]
    | some trade => rw [List.filterMap_cons_some htrade, List.map_cons, List.sum_cons]; rfl

/-- New events are not processed. -/
theorem unsettledFunds_append {committed : List OutboxEvent}
    (hnew : ∀ n, committed.length ≤ n → accounts.isEventProcessed (eventIds n) = false) :
    unsettledFunds eventIds owner (committed ++ events) accounts =
      unsettledFunds eventIds owner committed accounts +
        ((events.filterMap OutboxEvent.trade).map (takenBy owner)).sum := by
  rw [unsettledFunds, List.length_append, Finset.sum_range_add, ← sum_takenByEvent,
    ← sum_range_getElem]
  refine congrArg₂ _ (Finset.sum_congr rfl fun n hn => ?_) (Finset.sum_congr rfl fun n _ => ?_)
  · rw [List.getElem?_append_left (Finset.mem_range.mp hn)]
  · rw [hnew _ (Nat.le_add_right _ _), List.getElem?_append_right (Nat.le_add_right _ _),
      Nat.add_sub_cancel_left]
    rfl

theorem unsettledFunds_congr {accounts' : AccountsDb}
    (h : ∀ id, accounts'.isEventProcessed id = accounts.isEventProcessed id) :
    unsettledFunds eventIds owner events accounts' = unsettledFunds eventIds owner events accounts := by
  simp only [unsettledFunds, h]

/-- A trade that is settled is no longer one that is not. -/
theorem unsettledFunds_settled (hids : Function.Injective eventIds) {accounts' : AccountsDb} {n : ℕ}
    {trade : OrdersSchema.TradeExecutedEvent}
    (htrade : events[n]?.bind OutboxEvent.trade = some trade)
    (hbefore : accounts.isEventProcessed (eventIds n) = false)
    (hafter : ∀ id, accounts'.isEventProcessed id =
      (accounts.isEventProcessed id || decide (eventIds n = id))) :
    unsettledFunds eventIds owner events accounts' + takenBy owner trade =
      unsettledFunds eventIds owner events accounts := by
  obtain ⟨event, hevent, hreports⟩ := Option.bind_eq_some_iff.mp htrade
  have hn : n ∈ Finset.range events.length :=
    Finset.mem_range.mpr (List.getElem?_eq_some_iff.mp hevent).1
  have hterm (k : ℕ) : (if accounts.isEventProcessed (eventIds k) = true then 0
        else (events[k]?.map (takenByEvent owner)).getD 0) =
      (if accounts'.isEventProcessed (eventIds k) = true then 0
        else (events[k]?.map (takenByEvent owner)).getD 0) +
          if k = n then takenBy owner trade else 0 := by
    rw [hafter]
    by_cases hk : k = n
    · subst hk
      simp [hbefore, hevent, takenByEvent, hreports]
    · have hne : eventIds n ≠ eventIds k := fun heq => hk (hids heq).symm
      simp [hk, hne]
  rw [unsettledFunds, unsettledFunds, Finset.sum_congr rfl fun k _ => hterm k,
    Finset.sum_add_distrib, Finset.sum_ite_eq', if_pos hn]

/-! ### The invariant -/

/-- What the current call has locked for an order that it has yet to commit, or is about to
unlock. -/
def claimed (owner : Uuid × Currency) : Waiting → ℤ
  | .forTransaction request _ .ok =>
    if (request.val.userId, lockCurrency request.val) = owner then lockUnits request.val else 0
  | .forUnlock request =>
    if (request.userId, request.currency) = owner then request.amount.toNumeric.getD 0 else 0
  | _ => 0

/-- A request whose price and amount have at most eight decimals. -/
structure WholeUnits (request : CreateOrderRequest) : Prop where
  price : AtMostEightDecimals request.price
  amount : AtMostEightDecimals request.amount

/-- An unlock as a call sends it. -/
structure Unlock (request : BalanceRequest) : Prop where
  method_eq : request.method = .unlockBalance
  currency_normal : normalizeCurrency request.currency = .ok request.currency
  amount : ∃ units, 0 ≤ units ∧ request.amount.toNumeric = some units

/-- What holds of the requests that the current call waits with. -/
def Proper : Waiting → Prop
  | .idle => True
  | .forLock request _ => WholeUnits request.val
  | .forTransaction request _ _ => WholeUnits request.val
  | .forUnlock request => Unlock request

/-- The rows of locks have keys of requests. -/
def LockedBy (requests : List BalanceRequest) (rows : List LedgerTransaction) : Prop :=
  ∀ t ∈ rows, t.type = .lock → ∃ request ∈ requests, t.idempotencyKey = some (ledgerKey request)

/-- The rows of locks have keys of requests that were served; the one that waits was not. -/
def LocksServed (requests : List BalanceRequest) (rows : List LedgerTransaction) : Waiting → Prop
  | .forLock request _ => ∃ served,
    requests = served ++ [balanceRequest .lockBalance "lock:" request.val] ∧ LockedBy served rows
  | _ => LockedBy requests rows

/-- The funding invariant, with what it rests on. -/
structure Funded (eventIds : ℕ → Uuid) (s : Exchange) : Prop where
  agreed : Agreed s.orders.db s.orders.valkey
  pairs : ∀ orderId order, s.orders.db.findById orderId = some order → order.pair ∈ supportedPairs
  wellFormed : WellFormed s.accounts
  unprocessed : ∀ n, s.orders.db.outboxEvents.length ≤ n →
    s.accounts.isEventProcessed (eventIds n) = false
  proper : Proper s.waiting
  locksServed : LocksServed s.orders.balanceRequests s.accounts.ledgerTransactions s.waiting
  covered : ∀ userId currency, reservedFunds (userId, currency) s.orders.db +
    unsettledFunds eventIds (userId, currency) s.orders.db.outboxEvents s.accounts +
      claimed (userId, currency) s.waiting ≤ lockedOf s.accounts userId currency

theorem LockedBy.append {rows : List LedgerTransaction} (h : LockedBy requests rows)
    (more : List BalanceRequest) : LockedBy (requests ++ more) rows := fun t ht htype => by
  obtain ⟨request, hmem, hkey⟩ := h t ht htype
  exact ⟨request, List.mem_append_left _ hmem, hkey⟩

theorem funded_empty : Funded eventIds .empty where
  agreed := agreed_empty
  pairs _ _ h := by cases h
  wellFormed := wellFormed_empty
  unprocessed _ _ := rfl
  proper := trivial
  locksServed _ ht := absurd ht List.not_mem_nil
  covered _ _ := show (0 + 0 + 0 : ℤ) ≤ 0 from le_rfl

/-- A step of the accounts service that settles nothing. -/
theorem Funded.of_accounts (h : Funded eventIds s) (hwellFormed : WellFormed accounts)
    (hevents : ∀ id, accounts.isEventProcessed id = s.accounts.isEventProcessed id)
    (hproper : Proper waiting)
    (hlocks : LocksServed s.orders.balanceRequests accounts.ledgerTransactions waiting)
    (hlocked : ∀ userId currency,
      claimed (userId, currency) waiting + lockedOf s.accounts userId currency ≤
        claimed (userId, currency) s.waiting + lockedOf accounts userId currency) :
    Funded eventIds ⟨s.orders, accounts, waiting⟩ := by
  refine ⟨h.agreed, h.pairs, hwellFormed, fun n hn => ?_, hproper, hlocks, fun userId currency => ?_⟩
  · rw [hevents]
    exact h.unprocessed n hn
  · have hcovered := h.covered userId currency
    have hmoved := hlocked userId currency
    have hunsettled : unsettledFunds eventIds (userId, currency) s.orders.db.outboxEvents accounts =
        _ := unsettledFunds_congr hevents
    change reservedFunds (userId, currency) s.orders.db +
      unsettledFunds eventIds (userId, currency) s.orders.db.outboxEvents accounts +
        claimed (userId, currency) waiting ≤ lockedOf accounts userId currency
    omega

/-- A step of the orders service. -/
theorem Funded.of_orders (h : Funded eventIds s) (hagreed : Agreed orders.db orders.valkey)
    (hpairs : ∀ orderId order, orders.db.findById orderId = some order →
      order.pair ∈ supportedPairs)
    (hevents : orders.db.outboxEvents = s.orders.db.outboxEvents ++ events)
    (hproper : Proper waiting)
    (hlocks : LocksServed orders.balanceRequests s.accounts.ledgerTransactions waiting)
    (hreserved : ∀ owner, reservedFunds owner orders.db +
        ((events.filterMap OutboxEvent.trade).map (takenBy owner)).sum + claimed owner waiting ≤
      reservedFunds owner s.orders.db + claimed owner s.waiting) :
    Funded eventIds ⟨orders, s.accounts, waiting⟩ := by
  refine ⟨hagreed, hpairs, h.wellFormed, fun n hn => h.unprocessed n ?_, hproper, hlocks,
    fun userId currency => ?_⟩
  · have hlength : orders.db.outboxEvents.length =
        s.orders.db.outboxEvents.length + events.length := by rw [hevents, List.length_append]
    have hn : orders.db.outboxEvents.length ≤ n := hn
    omega
  · have hcovered := h.covered userId currency
    have hmoved := hreserved (userId, currency)
    have hunsettled : unsettledFunds eventIds (userId, currency) orders.db.outboxEvents s.accounts = _ :=
      hevents ▸ unsettledFunds_append h.unprocessed
    change reservedFunds (userId, currency) orders.db +
      unsettledFunds eventIds (userId, currency) orders.db.outboxEvents s.accounts +
        claimed (userId, currency) waiting ≤ lockedOf s.accounts userId currency
    omega

/-! ### Steps of the orders service -/

theorem terms_newOrder {newId : Uuid} (h : newOrder request.val newId = some order) :
    order.pair = request.val.pair ∧
      payer order = (request.val.userId, lockCurrency request.val) := by
  simp only [newOrder, Option.bind_eq_bind, Option.bind_eq_some_iff, Option.pure_def,
    Option.some.injEq] at h
  obtain ⟨price, -, amount, -, rfl⟩ := h
  exact ⟨rfl, rfl⟩

/-- What a new order reserves is what was locked for it. -/
theorem reservation_newOrder {newId : Uuid} (hunits : WholeUnits request.val)
    (h : newOrder request.val newId = some order) :
    reservation owner order = claimed owner (.forTransaction request ids .ok) := by
  obtain ⟨hp, hprice, ha, hamount⟩ := newOrder_values hunits.price hunits.amount h
  have hlocked : lockUnits request.val = reserve order.side order.price order.amount := by
    rw [lockUnits, lockAmount_toNumeric hprice.le hamount.le hp ha, Option.getD_some,
      newOrder_side h]
  rw [reservation, claimed, (terms_newOrder h).2, hlocked]

theorem exists_units {n : NumberText} (hn : AtMostEightDecimals n)
    (hpositive : isPositive n.value = true) :
    ∃ units : ℤ, 0 < units ∧ n.value = .finite (units / scale) := by
  obtain ⟨units, hvalue⟩ := hn
  rw [hvalue] at hpositive
  have hq : (0 : ℚ) < units / scale := by simpa [isPositive] using hpositive
  exact ⟨units, Int.cast_pos.mp ((div_pos_iff_of_pos_right scale_pos).mp hq), hvalue⟩

/-- The unlock that compensates a lock gives back what was locked. -/
theorem unlock_balanceRequest (hunits : WholeUnits request.val) :
    Unlock (balanceRequest .unlockBalance "unlock:" request.val) := by
  obtain ⟨hpositive, hpositive'⟩ := validateCreateOrderRequest_eq_none request.property
  obtain ⟨price, hprice, hp⟩ := exists_units hunits.price hpositive
  obtain ⟨amount, hamount, ha⟩ := exists_units hunits.amount hpositive'
  exact ⟨rfl, lockCurrency_normal request, _, reserve_nonneg hprice.le hamount.le,
    lockAmount_toNumeric hprice.le hamount.le hp ha⟩

theorem waitingFor_same {before after : OrdersStore}
    (h : after.balanceRequests = before.balanceRequests) : waitingFor before after = .idle := by
  rw [waitingFor, h, List.drop_length]

theorem waitingFor_sent {before after : OrdersStore} {unlock : BalanceRequest}
    (h : after.balanceRequests = before.balanceRequests ++ [unlock]) :
    waitingFor before after = .forUnlock unlock := by
  rw [waitingFor, h, List.drop_left]

theorem funded_startOrder (h : Funded eventIds s) (hidle : s.waiting = .idle)
    (hunits : WholeUnits request.val) :
    Funded eventIds ⟨(startOrder s.orders request ids).1, s.accounts,
      (startOrder s.orders request ids).2⟩ := by
  have hsame : Funded eventIds ⟨s.orders, s.accounts, .idle⟩ := hidle ▸ h
  have hlocks := h.locksServed
  rw [hidle] at hlocks
  unfold startOrder
  split
  · exact hsame
  · split
    · exact hsame
    · refine h.of_orders (h.agreed.of_eq rfl rfl) h.pairs (List.append_nil _).symm hunits
        ⟨_, rfl, hlocks⟩ fun owner => ?_
      change reservedFunds owner s.orders.db + 0 + 0 ≤ _
      rw [hidle]
      change _ ≤ reservedFunds owner s.orders.db + 0
      omega

theorem funded_placed (h : Funded eventIds s) (hunits : WholeUnits request.val)
    (hwaiting : s.waiting = .forTransaction request ids .ok)
    (hinserted : insertedOrder s.orders request.val ids.orderId = some order) :
    Funded eventIds ⟨(placed s.orders ids order).1, s.accounts, .idle⟩ := by
  obtain ⟨hvalues, hfresh⟩ := Option.filter_eq_some_iff.mp hinserted
  have hnew : NewRow s.orders.db order :=
    newRow_of_newOrder hunits.amount hvalues (by simpa using hfresh)
  have hagreed : Agreed (placed s.orders ids order).1.db (placed s.orders ids order).1.valkey :=
    agreed_placed h.agreed hnew
  obtain ⟨hnone, htrades, hadvances, row, hrow, hterms⟩ :=
    @Agreed.placement _ ids.tradeIds _ _ h.agreed hnew
  have hplacement : Placement s.orders.db (placed s.orders ids order).1.db order
      ((placeOrder s.orders.db ids.tradeIds order s.orders.valkey).1.outboxList.filterMap
        OutboxEvent.trade) := ⟨hnone, htrades, hadvances, row, hrow, hterms⟩
  have hlocks := h.locksServed
  rw [hwaiting] at hlocks
  refine h.of_orders hagreed (fun orderId found hfound => ?_) rfl trivial hlocks fun owner => ?_
  · by_cases htaker : orderId = order.id
    · obtain rfl : row = found := Option.some.inj (hrow.symm.trans (htaker ▸ hfound))
      rw [hterms.pair_eq, (terms_newOrder hvalues).1]
      exact pair_supported request
    · rcases hadvances.others orderId htaker with
        ⟨hsame, -⟩ | ⟨base, base', hbase, -, hversion, hterms'⟩
      · exact h.pairs orderId found (hsame.symm.trans hfound)
      · obtain rfl : base' = found := Option.some.inj (hversion.symm.trans hfound)
        rw [hterms'.pair_eq]
        exact h.pairs orderId base hbase
  · have hle := @Placement.reservedFunds_add_le _ _ _ _ _ _ owner hplacement h.agreed hagreed
    rw [reservation_newOrder hunits hvalues] at hle
    rw [hwaiting]
    change _ + _ + 0 ≤ _
    rw [add_zero]
    exact hle

theorem funded_transaction (h : Funded eventIds s) {lockReply : BalanceReply}
    (hwaiting : s.waiting = .forTransaction request ids lockReply) :
    Funded eventIds ⟨(answered s.orders request.val ids lockReply).1, s.accounts,
      waitingFor s.orders (answered s.orders request.val ids lockReply).1⟩ := by
  have hunits := h.proper
  have hlocks := h.locksServed
  rw [hwaiting] at hunits hlocks
  cases lockReply with
  | error message =>
    have hsame : waitingFor s.orders (answered s.orders request.val ids (.error message)).1 =
        .idle := waitingFor_same rfl
    rw [hsame]
    refine h.of_orders (h.agreed.of_eq rfl rfl) h.pairs (List.append_nil _).symm trivial hlocks
      fun owner => ?_
    rw [hwaiting]
    change reservedFunds owner s.orders.db + 0 + 0 ≤ reservedFunds owner s.orders.db + 0
    omega
  | ok =>
    cases hinserted : insertedOrder s.orders request.val ids.orderId with
    | none =>
      have hanswered : (answered s.orders request.val ids .ok).1 =
          SequentialOrders.compensated s.orders request.val ids.recordId := by
        simp only [answered, hinserted]
      rw [hanswered, @waitingFor_sent s.orders (SequentialOrders.compensated _ _ _) _ rfl]
      refine h.of_orders (h.agreed.of_eq rfl rfl) h.pairs (List.append_nil _).symm
        (unlock_balanceRequest hunits) (hlocks.append _) fun owner => ?_
      rw [hwaiting]
      change reservedFunds owner s.orders.db + 0 + claimed owner (.forTransaction request ids .ok) ≤
        _
      omega
    | some order =>
      have hanswered : (answered s.orders request.val ids .ok).1 =
          (placed s.orders ids order).1 := by
        simp only [answered, hinserted]
      rw [hanswered, @waitingFor_same s.orders (placed s.orders ids order).1 rfl]
      exact funded_placed h hunits hwaiting hinserted

/-- The unlock of a cancelled order gives back what the order reserved. -/
theorem unlock_cancelled {request : CancelOrderRequest} {traded : ℤ} (hsound : Sound order traded)
    (hpair : order.pair ∈ supportedPairs) :
    Unlock (unlockRequest request { order with status := .cancelled }) := by
  refine ⟨rfl, ?_, _, reserve_nonneg hsound.price_nonneg hsound.remaining_nonneg,
    unlockAmount_toNumeric hsound.price_nonneg hsound.remaining_nonneg⟩
  simp only [supportedPairs, List.mem_cons, List.not_mem_nil, or_false] at hpair
  rcases hpair with hpair | hpair <;> cases hside : order.side <;>
    simp [unlockRequest, hpair, normalizeCurrency]

theorem claimed_cancelled {request : CancelOrderRequest} {traded : ℤ} (hsound : Sound order traded)
    (hopen : order.status ∈ OrderStatus.cancellable) (huser : order.userId = request.userId) :
    claimed owner (.forUnlock (unlockRequest request { order with status := .cancelled })) =
      reservedBy owner order := by
  have hamount : (unlockRequest request { order with status := .cancelled }).amount.toNumeric =
      some (reserve order.side order.price order.remainingAmount) :=
    unlockAmount_toNumeric hsound.price_nonneg hsound.remaining_nonneg
  have hpayer : ((unlockRequest request { order with status := .cancelled }).userId,
      (unlockRequest request { order with status := .cancelled }).currency) = payer order := by
    rw [payer, huser]
    cases hside : order.side <;> simp only [unlockRequest, reservedCurrency]
  rw [claimed, hamount, hpayer, reservedBy, Option.getD_some]
  simp only [hopen, true_and]

theorem funded_cancelOrder (h : Funded eventIds s) (hidle : s.waiting = .idle)
    (request : CancelOrderRequest) :
    Funded eventIds ⟨(SequentialOrders.cancelOrder s.orders request).1, s.accounts,
      waitingFor s.orders (SequentialOrders.cancelOrder s.orders request).1⟩ := by
  have hagreed := agreed_cancelOrder h.agreed request
  have hlocks := h.locksServed
  rw [hidle] at hlocks
  rcases cancelOrder_cases s.orders request with
    ⟨hdb, hsent⟩ | ⟨order, event, hrow, huser, hopen, hevent, hdb, hsent⟩
  · have hevents : (SequentialOrders.cancelOrder s.orders request).1.db.outboxEvents =
        s.orders.db.outboxEvents ++ [] := by rw [hdb, List.append_nil]
    rw [waitingFor_same hsent]
    refine h.of_orders hagreed (hdb ▸ h.pairs) hevents trivial (hsent ▸ hlocks) fun owner => ?_
    rw [hdb, hidle]
    change reservedFunds owner s.orders.db + 0 + 0 ≤ reservedFunds owner s.orders.db + 0
    omega
  · have hsound := h.agreed.rows order.id order hrow
    have hpairs : ∀ orderId found,
        (SequentialOrders.cancelOrder s.orders request).1.db.findById orderId = some found →
          found.pair ∈ supportedPairs := by
      intro orderId found hfound
      rw [hdb, findById_cancelled] at hfound
      split at hfound
      · obtain rfl := Option.some.inj hfound
        exact h.pairs order.id order hrow
      · exact h.pairs orderId found hfound
    have hevents : (SequentialOrders.cancelOrder s.orders request).1.db.outboxEvents =
        s.orders.db.outboxEvents ++ [event] := by rw [hdb]; rfl
    have hreserved (owner : Uuid × Currency) :
        reservedFunds owner (SequentialOrders.cancelOrder s.orders request).1.db +
          reservedBy owner order = reservedFunds owner s.orders.db := by
      have hunique := hagreed.unique
      rw [hdb] at hunique ⊢
      exact reservedFunds_cancelled h.agreed.unique hunique hrow
    have hnone (owner : Uuid × Currency) :
        (([event].filterMap OutboxEvent.trade).map (takenBy owner)).sum = 0 := by
      rw [List.filterMap_cons_none hevent]
      rfl
    unfold unlockRequests at hsent
    split at hsent
    · rw [waitingFor_sent hsent]
      refine h.of_orders hagreed hpairs hevents (unlock_cancelled hsound (h.pairs _ _ hrow))
        (hsent ▸ hlocks.append _) fun owner => ?_
      rw [claimed_cancelled hsound hopen huser, hidle, hnone]
      change _ ≤ reservedFunds owner s.orders.db + 0
      have hle := hreserved owner
      omega
    · rw [List.append_nil] at hsent
      rw [waitingFor_same hsent]
      refine h.of_orders hagreed hpairs hevents trivial (hsent ▸ hlocks) fun owner => ?_
      rw [hidle, hnone]
      change _ + 0 + 0 ≤ reservedFunds owner s.orders.db + 0
      have hle := hreserved owner
      have hnonneg : 0 ≤ reservedBy owner order := by
        unfold reservedBy
        split
        · exact reserve_nonneg hsound.price_nonneg hsound.remaining_nonneg
        · exact le_rfl
      omega

/-! ### Steps of the accounts service -/

theorem LocksServed.mono {rows rows' : List LedgerTransaction}
    (h : LocksServed requests rows waiting)
    (hrows : ∀ t ∈ rows', t.type = .lock → t ∈ rows) : LocksServed requests rows' waiting := by
  have hlocked {served : List BalanceRequest} (hserved : LockedBy served rows) :
      LockedBy served rows' := fun t ht htype => hserved t (hrows t ht htype) htype
  cases waiting with
  | forLock request ids =>
    obtain ⟨served, hsent, hserved⟩ := h
    exact ⟨served, hsent, hlocked hserved⟩
  | _ => exact hlocked h

theorem isEventProcessed_mutated {type : LedgerTransactionType} {key : String} {db db' : AccountsDb}
    (h : Mutated type key db db') (id : Uuid) : db'.isEventProcessed id = db.isEventProcessed id := by
  rw [AccountsDb.isEventProcessed, AccountsDb.findProcessedEvent, h.processedEvents_eq]
  rfl

theorem funded_mutateBalance (h : Funded eventIds s) {op : BalanceOperation} {newId : Uuid}
    {params : BalanceParams} (hchange : ∀ amount, (op.mutation.change amount).2 = 0)
    (htype : op.mutation.expectedType ≠ .lock) :
    Funded eventIds { s with accounts := (mutateBalance op.mutation newId params s.accounts).1 } := by
  have hmutated : Mutated op.mutation.expectedType params.idempotencyKey s.accounts
      (mutateBalance op.mutation newId params s.accounts).1 := mutated_mutateBalance h.wellFormed
  refine h.of_accounts hmutated.wellFormed (isEventProcessed_mutated hmutated) h.proper
    (h.locksServed.mono fun t ht hlock => ?_) fun userId currency => ?_
  · rcases hmutated.ledger t ht with hold | ⟨hnew, -⟩
    · exact hold
    · exact absurd (hnew.symm.trans hlock) htype
  · rw [lockedOf_mutateBalance h.wellFormed hchange]

/-- A lock that succeeds moves what the call then claims. -/
theorem funded_lock (h : Funded eventIds s) (hwaiting : s.waiting = .forLock request ids)
    (hkeys : (s.orders.balanceRequests.map ledgerKey).Nodup) (message : String) :
    Funded eventIds ⟨s.orders,
      (deliver isValidUuid .answered message (balanceRequest .lockBalance "lock:" request.val)
        s.accounts).1,
      .forTransaction request ids
        (deliver isValidUuid .answered message (balanceRequest .lockBalance "lock:" request.val)
          s.accounts).2⟩ := by
  let lock := balanceRequest .lockBalance "lock:" request.val
  have hunits := h.proper
  have hlocks := h.locksServed
  rw [hwaiting] at hunits hlocks
  obtain ⟨served, hsent, hserved⟩ := hlocks
  rw [hsent, List.map_append, List.map_singleton] at hkeys
  have hunused : ∀ t ∈ s.accounts.ledgerTransactions, t.type = .lock →
      t.idempotencyKey ≠ some (ledgerKey lock) := by
    intro t ht htype hkey
    obtain ⟨earlier, hmem, hearlier⟩ := hserved t ht htype
    have heq : ledgerKey earlier = ledgerKey lock := Option.some.inj (hearlier.symm.trans hkey)
    have hsame : ledgerKey lock ∈ served.map ledgerKey := by
      rw [← heq]
      exact List.mem_map_of_mem hmem
    exact List.disjoint_of_nodup_append hkeys hsame (List.mem_singleton_self _)
  have hdelivered : (deliver isValidUuid .answered message lock s.accounts).1 =
      (serve isValidUuid lock s.accounts).1 :=
    (@deliver_cases isValidUuid .answered message lock s.accounts).1.trans (if_neg (by decide))
  have hmutated : Mutated .lock (ledgerKey lock) s.accounts (serve isValidUuid lock s.accounts).1 :=
    @mutated_serve isValidUuid lock s.accounts h.wellFormed
  obtain ⟨-, -, units, hnonneg, hamount⟩ := unlock_balanceRequest hunits
  have hlockUnits : lockUnits request.val = units := congrArg (fun o => Option.getD o 0) hamount
  rw [hdelivered]
  refine h.of_accounts hmutated.wellFormed (isEventProcessed_mutated hmutated) hunits
    (fun t ht htype => ?_) fun userId currency => ?_
  · rcases hmutated.ledger t ht with hold | ⟨-, hnew⟩
    · obtain ⟨earlier, hmem, hkey⟩ := hserved t hold htype
      exact ⟨earlier, hsent ▸ List.mem_append_left _ hmem, hkey⟩
    · exact ⟨lock, hsent ▸ List.mem_append_right _ (List.mem_singleton_self _), hnew⟩
  · have hserve := @lockedOf_serve isValidUuid lock _ userId currency h.wellFormed units
      (lockCurrency_normal request) fun n hn => Option.some.inj (hn.symm.trans hamount)
    have hclaimed : claimed (userId, currency) (.forTransaction request ids
        (deliver isValidUuid .answered message lock s.accounts).2) ≤
          if takesEffect isValidUuid lock s.accounts = true ∧
              (lock.userId, lock.currency) = (userId, currency) then units else 0 := by
      cases hreply : (deliver isValidUuid .answered message lock s.accounts).2 with
      | error text =>
        change 0 ≤ _
        split
        · exact hnonneg
        · exact le_rfl
      | ok =>
        obtain ⟨account, hok⟩ := serve_of_deliver hreply
        have heffect := @takesEffect_of_ok isValidUuid lock _ _ h.wellFormed hunused hok
        rw [claimed, hlockUnits, heffect]
        simp only [true_and]
        exact le_rfl
    have hadds : addsToLocked lock.method units = units := rfl
    rw [hwaiting, hserve, hadds]
    change claimed (userId, currency) (.forTransaction request ids
      (deliver isValidUuid .answered message lock s.accounts).2) + _ ≤ 0 + _
    omega

theorem funded_unlock (h : Funded eventIds s) {request : BalanceRequest}
    (hwaiting : s.waiting = .forUnlock request) :
    Funded eventIds ⟨s.orders, (serve isValidUuid request s.accounts).1, .idle⟩ := by
  have hunlock := h.proper
  have hlocks := h.locksServed
  rw [hwaiting] at hunlock hlocks
  obtain ⟨hmethod, hcurrency, units, hnonneg, hamount⟩ := hunlock
  have hmutated := @mutated_serve isValidUuid request _ h.wellFormed
  refine h.of_accounts hmutated.wellFormed (isEventProcessed_mutated hmutated) trivial
    (LocksServed.mono hlocks fun t ht htype => ?_) fun userId currency => ?_
  · rcases hmutated.ledger t ht with hold | ⟨hnew, -⟩
    · exact hold
    · rw [hmethod, htype] at hnew
      cases hnew
  · have hserve := @lockedOf_serve isValidUuid request _ userId currency h.wellFormed units hcurrency
      fun n hn => Option.some.inj (hn.symm.trans hamount)
    have hadds : addsToLocked .unlockBalance units = -units := rfl
    rw [hwaiting, hserve, hmethod, hadds, claimed, hamount, Option.getD_some]
    change 0 + _ ≤ _
    by_cases howner : (request.userId, request.currency) = (userId, currency)
    · rw [if_pos howner]
      split <;> omega
    · rw [if_neg howner, if_neg fun hboth => howner hboth.2]
      omega

theorem funded_settle (h : Funded eventIds s) (hids : Function.Injective eventIds) {n : ℕ}
    {trade : OrdersSchema.TradeExecutedEvent} (hevent :
      s.orders.db.outboxEvents[n]?.bind OutboxEvent.trade = some trade)
    (hsettled : Settled (eventIds n) trade s.accounts accounts) :
    Funded eventIds { s with accounts } := by
  rcases hsettled.effect with ⟨hlocked, hprocessed⟩ | ⟨hbefore, hlocked, hprocessed⟩
  · refine h.of_accounts hsettled.wellFormed hprocessed h.proper
      (h.locksServed.mono hsettled.lockRows) fun userId currency => ?_
    rw [hlocked]
  · refine ⟨h.agreed, h.pairs, hsettled.wellFormed, fun k hk => ?_, h.proper,
      h.locksServed.mono hsettled.lockRows, fun userId currency => ?_⟩
    · have hn : n < s.orders.db.outboxEvents.length := by
        obtain ⟨event, hget, -⟩ := Option.bind_eq_some_iff.mp hevent
        exact (List.getElem?_eq_some_iff.mp hget).1
      have hk : s.orders.db.outboxEvents.length ≤ k := hk
      have hne : eventIds n ≠ eventIds k := fun heq => by
        have hindex := hids heq
        omega
      rw [hprocessed, h.unprocessed k hk, Bool.false_or, decide_eq_false_iff_not]
      exact hne
    · have hcovered := h.covered userId currency
      have htaken := @unsettledFunds_settled _ _ _ (userId, currency) hids _ _ _ hevent hbefore hprocessed
      rw [hlocked]
      change reservedFunds (userId, currency) s.orders.db +
        unsettledFunds eventIds (userId, currency) s.orders.db.outboxEvents accounts +
          claimed (userId, currency) s.waiting ≤ _
      omega

/-! ### Runs -/

theorem startOrder_balanceRequests :
    s.orders.balanceRequests <+: (startOrder s.orders request ids).1.balanceRequests := by
  unfold startOrder
  split
  · exact List.prefix_rfl
  · split
    · exact List.prefix_rfl
    · exact List.prefix_append _ _

theorem answered_balanceRequests {lockReply : BalanceReply} :
    orders.balanceRequests <+: (answered orders request.val ids lockReply).1.balanceRequests := by
  cases lockReply with
  | error message => exact List.prefix_rfl
  | ok =>
    rw [answered]
    split
    · exact List.prefix_append _ _
    · exact List.prefix_rfl

theorem cancelOrder_balanceRequests (request : CancelOrderRequest) :
    orders.balanceRequests <+: (SequentialOrders.cancelOrder orders request).1.balanceRequests := by
  rcases cancelOrder_cases orders request with ⟨-, hsent⟩ | ⟨order, event, -, -, -, -, -, hsent⟩
  · rw [hsent]
  · rw [hsent]
    exact List.prefix_append _ _

/-- A step sends requests after those sent before it, and keeps the invariant if their keys
differ. -/
theorem funded_step (hids : Function.Injective eventIds) {e : Event} (he : e.WholeUnits)
    (hstep : ExchangeRuns.step isValidUuid eventIds s e = some t) :
    s.orders.balanceRequests <+: t.orders.balanceRequests ∧
      ((s.orders.balanceRequests.map ledgerKey).Nodup → Funded eventIds s → Funded eventIds t) := by
  cases e with
  | createOrder request ids =>
    simp only [ExchangeRuns.step] at hstep
    split at hstep
    · next hidle =>
      split at hstep
      · next hvalid =>
        obtain rfl := Option.some.inj hstep
        exact ⟨@startOrder_balanceRequests s ⟨request, hvalid⟩ ids,
          fun _ h => funded_startOrder h hidle ⟨he.1, he.2⟩⟩
      · obtain rfl := Option.some.inj hstep
        exact ⟨List.prefix_rfl, fun _ h => h⟩
    · cases hstep
  | cancelOrder request =>
    simp only [ExchangeRuns.step] at hstep
    split at hstep
    · next hidle =>
      obtain rfl := Option.some.inj hstep
      exact ⟨cancelOrder_balanceRequests request, fun _ h => funded_cancelOrder h hidle request⟩
    · cases hstep
  | balanceCall message =>
    simp only [ExchangeRuns.step] at hstep
    split at hstep
    · next hwaiting =>
      obtain rfl := Option.some.inj hstep
      exact ⟨List.prefix_rfl, fun hkeys h => funded_lock h hwaiting hkeys message⟩
    · next hwaiting =>
      obtain rfl := Option.some.inj hstep
      exact ⟨List.prefix_rfl, fun _ h => funded_unlock h hwaiting⟩
    · cases hstep
  | transaction =>
    simp only [ExchangeRuns.step] at hstep
    split at hstep
    · next hwaiting =>
      obtain rfl := Option.some.inj hstep
      exact ⟨answered_balanceRequests, fun _ h => funded_transaction h hwaiting⟩
    · cases hstep
  | passTime ms =>
    obtain rfl := Option.some.inj hstep
    exact ⟨List.prefix_rfl, fun _ h => ⟨h.agreed, h.pairs, h.wellFormed, h.unprocessed, h.proper,
      h.locksServed, h.covered⟩⟩
  | deposit newId params =>
    obtain rfl := Option.some.inj hstep
    exact ⟨List.prefix_rfl, fun _ h =>
      @funded_mutateBalance _ _ h .deposit newId params (fun _ => rfl) (by decide)⟩
  | creditDeposit newId params =>
    obtain rfl := Option.some.inj hstep
    exact ⟨List.prefix_rfl, fun _ h =>
      @funded_mutateBalance _ _ h .creditDeposit newId params (fun _ => rfl) (by decide)⟩
  | deliver n offset actionHeader newIds =>
    obtain ⟨payload, hmessage, hdelivered⟩ := Option.bind_eq_some_iff.mp hstep
    obtain ⟨accounts, hsettle, rfl⟩ := Option.map_eq_some_iff.mp hdelivered
    refine ⟨List.prefix_rfl, fun _ h => ?_⟩
    obtain ⟨trade, hevent, hsettled⟩ := settled_settle h.wellFormed hmessage hsettle
    exact funded_settle h hids hevent hsettled

theorem funded_exec (hids : Function.Injective eventIds) {es : List Event}
    (hunits : ∀ e ∈ es, e.WholeUnits) (h : exec isValidUuid eventIds .empty es = some s)
    (hkeys : (s.orders.balanceRequests.map ledgerKey).Nodup) : Funded eventIds s := by
  refine @exec_invariant isValidUuid eventIds _ _ _
    (fun s => (s.orders.balanceRequests.map ledgerKey).Nodup → Funded eventIds s) Event.WholeUnits
    (fun s e t he hstep hs ht => ?_) (fun _ => funded_empty) hunits h hkeys
  obtain ⟨hsent, hnext⟩ := funded_step hids he hstep
  have hbefore : (s.orders.balanceRequests.map ledgerKey).Nodup := ht.sublist (hsent.map _).sublist
  exact hnext hbefore (hs hbefore)

/-! ### What is covered -/

theorem Funded.reservedFunds_nonneg (h : Funded eventIds s) :
    0 ≤ reservedFunds owner s.orders.db := by
  refine List.sum_nonneg fun n hn => ?_
  obtain ⟨order, horder, rfl⟩ := List.mem_map.mp hn
  have hsound := h.agreed.rows order.id order ((lookup_eq_some h.agreed.unique).mpr ⟨horder, rfl⟩)
  unfold reservedBy
  split
  · exact reserve_nonneg hsound.price_nonneg hsound.remaining_nonneg
  · exact le_rfl

theorem takenOn_nonneg {trade : OrdersSchema.TradeExecutedEvent} {side : OrderSide}
    (hprice : 0 ≤ trade.price) (hquantity : 0 ≤ trade.quantity) : 0 ≤ takenOn owner side trade := by
  rw [takenOn, takenFromLocked_eq hprice hquantity, Option.getD_some]
  split
  · cases side with
    | buy =>
      have hcost : 0 ≤ trade.price * trade.quantity / 10 ^ 8 :=
        Int.ediv_nonneg (mul_nonneg hprice hquantity) (by decide)
      have hrefund : 0 ≤ max 0 (trade.buyerLimitPrice - trade.price) * trade.quantity / 10 ^ 8 :=
        Int.ediv_nonneg (mul_nonneg (le_max_left _ _) hquantity) (by decide)
      rw [share]
      omega
    | sell => exact hquantity
  · exact le_rfl

theorem Funded.unsettledFunds_nonneg (h : Funded eventIds s) :
    0 ≤ unsettledFunds eventIds owner s.orders.db.outboxEvents s.accounts := by
  refine Finset.sum_nonneg fun n _ => ?_
  split
  · exact le_rfl
  · cases hevent : s.orders.db.outboxEvents[n]? with
    | none => exact le_rfl
    | some event =>
      rw [Option.map_some, Option.getD_some, takenByEvent]
      cases htrade : event.trade with
      | none => exact le_rfl
      | some trade =>
        have hmem : trade ∈ s.orders.db.trades :=
          List.mem_filterMap.mpr ⟨event, List.mem_of_getElem? hevent, htrade⟩
        obtain ⟨order, -, hfills⟩ := h.agreed.fills trade hmem _ (Or.inl rfl)
        exact add_nonneg (takenOn_nonneg hfills.price_nonneg hfills.quantity_pos.le)
          (takenOn_nonneg hfills.price_nonneg hfills.quantity_pos.le)

theorem Funded.claimed_nonneg (h : Funded eventIds s) : 0 ≤ claimed owner s.waiting := by
  have hproper := h.proper
  cases hwaiting : s.waiting with
  | idle => exact le_rfl
  | forLock request ids => exact le_rfl
  | forTransaction request ids lockReply =>
    rw [hwaiting] at hproper
    obtain ⟨-, -, units, hnonneg, hamount⟩ := unlock_balanceRequest hproper
    have hlockUnits : lockUnits request.val = units := congrArg (fun o => Option.getD o 0) hamount
    cases lockReply with
    | error message => exact le_rfl
    | ok =>
      rw [claimed, hlockUnits]
      split
      · exact hnonneg
      · exact le_rfl
  | forUnlock request =>
    rw [hwaiting] at hproper
    obtain ⟨-, -, units, hnonneg, hamount⟩ := hproper
    rw [claimed, hamount, Option.getD_some]
    split
    · exact hnonneg
    · exact le_rfl

/-- Nothing that is locked is below zero. -/
theorem Funded.lockedBalance_nonneg (h : Funded eventIds s) {account : Account}
    (haccount : account ∈ s.accounts.accounts) : 0 ≤ account.lockedBalance := by
  have hfound : s.accounts.findByUserAndCurrency account.userId account.currency = some account :=
    (lookup_eq_some h.wellFormed.owners).mpr ⟨haccount, rfl⟩
  have hlocked : lockedOf s.accounts account.userId account.currency = account.lockedBalance := by
    rw [lockedOf, SequentialRequests.accountBalances, hfound]
    rfl
  have hcovered := h.covered account.userId account.currency
  have hreserved := @Funded.reservedFunds_nonneg _ _ (account.userId, account.currency) h
  have hunsettled := @Funded.unsettledFunds_nonneg _ _ (account.userId, account.currency) h
  have hclaimed := @Funded.claimed_nonneg _ _ (account.userId, account.currency) h
  omega

/-- An unlock that is sent finds what it unlocks. -/
theorem Funded.unlock_accepted (h : Funded eventIds s) {request : BalanceRequest}
    (hwaiting : s.waiting = .forUnlock request) {exception : BalanceException}
    (hrefused : (serve isValidUuid request s.accounts).2 = .error (.rpc exception)) :
    exception.errorCode ≠ BalancesErrorCodes.insufficientLockedBalance := by
  have hunlock := h.proper
  rw [hwaiting] at hunlock
  obtain ⟨-, hcurrency, units, -, hamount⟩ := hunlock
  have hclaimed : claimed (request.userId, request.currency) s.waiting = units := by
    rw [hwaiting, claimed, if_pos rfl, hamount, Option.getD_some]
  have hcovered := h.covered request.userId request.currency
  have hreserved := @Funded.reservedFunds_nonneg _ _ (request.userId, request.currency) h
  have hunsettled := @Funded.unsettledFunds_nonneg _ _ (request.userId, request.currency) h
  exact errorCode_of_le_lockedOf hcurrency hamount (by omega) hrefused

/-- After every run, what is locked for a user in a currency covers what the open orders of the
user reserve and what committed trades that are not settled will take. No balance of locked
funds is below zero, and no unlock is refused for want of them. -/
theorem locked_covers (isValidUuid : String → Bool) (eventIds : ℕ → Uuid)
    (hids : Function.Injective eventIds) (es : List Event) (s : Exchange)
    (hunits : ∀ e ∈ es, e.WholeUnits) (h : exec isValidUuid eventIds .empty es = some s)
    (hkeys : (s.orders.balanceRequests.map ledgerKey).Nodup) :
    (∀ userId currency, reservedFunds (userId, currency) s.orders.db +
      unsettledFunds eventIds (userId, currency) s.orders.db.outboxEvents s.accounts ≤
        lockedOf s.accounts userId currency) ∧
    (∀ account ∈ s.accounts.accounts, 0 ≤ account.lockedBalance) ∧
    ∀ request exception, s.waiting = .forUnlock request →
      (serve isValidUuid request s.accounts).2 = .error (.rpc exception) →
        exception.errorCode ≠ BalancesErrorCodes.insufficientLockedBalance := by
  have hfunded := funded_exec hids hunits h hkeys
  refine ⟨fun userId currency => ?_, fun account => hfunded.lockedBalance_nonneg,
    fun request exception hwaiting hrefused => hfunded.unlock_accepted hwaiting hrefused⟩
  have hcovered := hfunded.covered userId currency
  have hclaimed := @Funded.claimed_nonneg _ _ (userId, currency) hfunded
  omega

/-! ### A sale that is cancelled before its trade is settled -/

def seller : Uuid := "018f3c1e-6b1a-7c3d-9e2f-4a5b6c7d8ea0"

/-- The ids of the two traders are the only texts that are taken for ids. -/
def knowsTraders (userId : String) : Bool := userId == buyer || userId == seller

def eventId (n : ℕ) : Uuid := String.ofList (List.replicate (n + 1) 'e')

theorem eventId_injective : Function.Injective eventId := fun m n h => by
  have hlength := congrArg List.length (String.ofList_injective h)
  simpa using hlength

/-- A limit order, its lock and its transaction. -/
def placing (request : CreateOrderRequest) (recordId orderId : Uuid) : List Event :=
  [.createOrder request ⟨recordId, orderId, fun _ => "trade"⟩, .balanceCall "", .transaction]

def funding (userId : Uuid) (currency : Currency) (units : ℕ) : Event :=
  .deposit (userId ++ "-account") ⟨userId, currency, .coins units, userId ++ "-deposit", none⟩

def newAccounts (name : String) : TradeSettlement.Participant → Uuid
  | .buyerQuote => name ++ "-buyer-quote"
  | .buyerBase => name ++ "-buyer-base"
  | .sellerQuote => name ++ "-seller-quote"
  | .sellerBase => name ++ "-seller-base"

/-- The seller offers two units at a hundred, the buyer takes one of them, and the seller cancels
the other. The trade is settled afterwards, and delivered again. -/
def cancelledSale : List Event :=
  [funding seller .eth 5, funding buyer .usdt 1000] ++
    placing (limitOrder seller .sell 100 2) "r" "ask" ++
      placing (limitOrder buyer .buy 101 1) "q" "bid" ++
        [.cancelOrder ⟨"ask", seller, "enough"⟩, .balanceCall "",
          .deliver 2 "0" "" (newAccounts "first"), .deliver 2 "0" "" (newAccounts "second")]

theorem wholeUnits_cancelledSale : ∀ e ∈ cancelledSale, e.WholeUnits := by
  intro e he
  simp only [cancelledSale, funding, placing, List.cons_append, List.nil_append, List.mem_cons,
    List.not_mem_nil, or_false] at he
  rcases he with rfl | rfl | rfl | rfl | rfl | rfl | rfl | rfl | rfl | rfl | rfl | rfl
  · trivial
  · trivial
  · exact ⟨wholeUnits_limitOrder seller .sell 2 100, wholeUnits_limitOrder seller .sell 100 2⟩
  · trivial
  · trivial
  · exact ⟨wholeUnits_limitOrder buyer .buy 1 101, wholeUnits_limitOrder buyer .buy 101 1⟩
  all_goals trivial

theorem cancelledSale_executes : ((exec knowsTraders eventId .empty cancelledSale).map fun s =>
    (s.orders.db.orders.map Order.status, s.orders.balanceRequests.map ledgerKey)) =
      some ([.cancelled, .filled], ["lock:" ++ seller, "lock:" ++ buyer, "cancel:enough"]) := by
  decide +kernel

theorem locked_covers_cancelledSale : ∃ s, exec knowsTraders eventId .empty cancelledSale = some s ∧
    s.orders.db.orders.map Order.status = [.cancelled, .filled] ∧
    (∀ userId currency, reservedFunds (userId, currency) s.orders.db +
      unsettledFunds eventId (userId, currency) s.orders.db.outboxEvents s.accounts ≤
        lockedOf s.accounts userId currency) ∧
    (∀ account ∈ s.accounts.accounts, 0 ≤ account.lockedBalance) ∧
    ∀ request exception, s.waiting = .forUnlock request →
      (serve knowsTraders request s.accounts).2 = .error (.rpc exception) →
        exception.errorCode ≠ BalancesErrorCodes.insufficientLockedBalance := by
  obtain ⟨s, hrun, hvalues⟩ := Option.map_eq_some_iff.mp cancelledSale_executes
  obtain ⟨hstatuses, hkeys⟩ := Prod.mk.inj hvalues
  refine ⟨s, hrun, hstatuses, locked_covers knowsTraders eventId eventId_injective cancelledSale s
    wholeUnits_cancelledSale hrun ?_⟩
  rw [hkeys]
  decide

end EtherTrade.FundingLaws
