import Mathlib.Tactic.Linarith
import EtherTrade.OrdersTransactionRuns

/-!
# Fills of orders under concurrency

What a row says is filled against the trades that were committed for it, over every
interleaving of createOrder and cancelOrder calls.
-/

namespace EtherTrade.OrderFillLaws

open DecimalNumbers KeyedRows AccountsSchema OrdersSchema OrderBook MatchingEngine
open InterleavedProcesses ResourceLocks OrdersTransactions OrdersTransactionInvariants
open OrdersTransactionSteps OrdersTransactionRuns

variable {db : OrdersDb} {p q : ℕ} {s s' : Shared} {w : UnitOfWork} {maker : OrderbookEntry}
  {point point' : Point} {placing : Placing} {l l' : Process} {action : Action}
  {orderId : Uuid} {order base : Order} {quantity : ℤ}

/-! ### Traded quantities -/

/-- The sum of the quantities of the trades that name an order. -/
def tradedQuantity (trades : List TradeExecutedEvent) (orderId : Uuid) : ℤ :=
  (trades.map fun e => if e.Names orderId then e.quantity else 0).sum

theorem tradedQuantity_append {trades trades' : List TradeExecutedEvent} :
    tradedQuantity (trades ++ trades') orderId =
      tradedQuantity trades orderId + tradedQuantity trades' orderId := by
  simp [tradedQuantity]

theorem tradedQuantity_unnumbered {trades : List TradeExecutedEvent} :
    tradedQuantity (trades.map unnumbered) orderId = tradedQuantity trades orderId := by
  simp only [tradedQuantity, List.map_map]
  rfl

theorem tradedQuantity_eq_zero {trades : List TradeExecutedEvent}
    (h : ∀ e ∈ trades, ¬e.Names orderId) : tradedQuantity trades orderId = 0 := by
  refine List.sum_eq_zero fun n hn => ?_
  obtain ⟨e, he, rfl⟩ := List.mem_map.mp hn
  exact if_neg (h e he)

theorem tradedQuantity_fill {makerFilled : ℤ} {tradeId : Uuid} :
    tradedQuantity (reported (w.fill db maker makerFilled tradeId).trades) orderId =
      tradedQuantity (reported w.trades) orderId +
        if orderId = w.takerOrder.id ∨ orderId = maker.orderId then w.matchAmount maker else 0 := by
  simp only [UnitOfWork.fill_trades, reported, List.map_append, tradedQuantity_append]
  simp only [tradedQuantity, List.map_cons, List.map_nil, List.sum_singleton,
    names_matchedTrade]
  rfl

/-! ### The invariant -/

/-- The row accounts for its amount, of which `quantity` is filled. -/
structure Filled (order : Order) (quantity : ℤ) : Prop where
  total : order.filledAmount + order.remainingAmount = order.amount
  filled_nonneg : 0 ≤ order.filledAmount
  remaining_nonneg : 0 ≤ order.remainingAmount
  filled_eq : order.filledAmount = quantity

/-- Every committed row is filled by what was traded for it, and trades are between
committed orders. -/
structure Accounted (db : OrdersDb) : Prop where
  filled : ∀ orderId order, db.findById orderId = some order →
    Filled order (tradedQuantity db.trades orderId)
  named : ∀ e ∈ db.trades, ∀ orderId, e.Names orderId → (db.findById orderId).isSome

/-- The row has moved `quantity` from remaining to filled since `base`. -/
structure Moved (base order : Order) (quantity : ℤ) : Prop where
  amount_eq : order.amount = base.amount
  filled_eq : order.filledAmount = base.filledAmount + quantity
  remaining_eq : order.remainingAmount = base.remainingAmount - quantity
  quantity_nonneg : 0 ≤ quantity
  remaining_nonneg : 0 ≤ order.remainingAmount

/-- What a transaction has matched shows in its rows. -/
structure Accounts (db : OrdersDb) (w : UnitOfWork) (point : Point) : Prop where
  total : w.currentTakerFilled + w.currentTakerRemaining = w.takerOrder.amount
  filled_nonneg : 0 ≤ w.currentTakerFilled
  remaining_nonneg : 0 ≤ w.currentTakerRemaining
  traded : tradedQuantity (reported w.trades) w.takerOrder.id = w.currentTakerFilled
  taker : ∀ row, lookup Order.id w.rows w.takerOrder.id = some row →
    row.amount = w.takerOrder.amount ∧ (finished point = true →
      row.filledAmount = w.currentTakerFilled ∧ row.remainingAmount = w.currentTakerRemaining)
  makers : ∀ orderId row, orderId ≠ w.takerOrder.id → lookup Order.id w.rows orderId = some row →
    ∃ base, db.findById orderId = some base ∧
      Moved base row (tradedQuantity (reported w.trades) orderId)

def CallAccounts (db : OrdersDb) : Process → Prop
  | .creating _ (.placing _ (.active w point)) => Accounts db w point
  | _ => True

/-- The maker's order is committed, and the version its update overwrites has the filled
amount that was read and the remaining amount that the book showed. -/
def MakerCurrent : Condition := fun db w maker makerFilled =>
  (db.findById maker.orderId).isSome ∧
    (w.findById db maker.orderId).map (fun order =>
      (order.filledAmount + w.matchAmount maker, order.remainingAmount)) =
        some (makerFilled, maker.remainingAmount)

instance (db : OrdersDb) (w : UnitOfWork) (maker : OrderbookEntry) (makerFilled : ℤ) :
    Decidable (MakerCurrent db w maker makerFilled) := inferInstanceAs (Decidable (_ ∧ _))

theorem Moved.filled {traded : ℤ} (h : Moved base order quantity) (hb : Filled base traded) :
    Filled order (traded + quantity) := by
  have htotal := hb.total
  have hfilled := hb.filled_nonneg
  have hq := h.quantity_nonneg
  refine ⟨?_, ?_, h.remaining_nonneg, ?_⟩
  · rw [h.filled_eq, h.remaining_eq, h.amount_eq]
    linarith
  · rw [h.filled_eq]
    linarith
  · rw [h.filled_eq, hb.filled_eq]

/-! ### Steps -/

theorem traded_of_unwritten (hw : Holding p s w)
    (hrow : lookup Order.id w.rows orderId = none) :
    tradedQuantity (reported w.trades) orderId = 0 :=
  tradedQuantity_eq_zero fun e he hnames => by
    simpa [hrow] using hw.named e he orderId hnames

/-- The version that an update of a maker overwrites, against the committed row. -/
theorem moved_of_findById (hw : Holding p s w) (hdb : Accounted s.store.db)
    (ha : Accounts s.store.db w point) (hne : orderId ≠ w.takerOrder.id)
    (hbase : s.store.db.findById orderId = some base)
    (hrow : w.findById s.store.db orderId = some order) :
    Moved base order (tradedQuantity (reported w.trades) orderId) := by
  rw [UnitOfWork.findById, Option.or_eq_some_iff] at hrow
  rcases hrow with hrow | ⟨hnone, hrow⟩
  · obtain ⟨base', hbase', hmoved⟩ := ha.makers orderId order hne hrow
    rw [hbase] at hbase'
    obtain rfl := Option.some.inj hbase'
    exact hmoved
  · rw [hbase] at hrow
    obtain rfl := Option.some.inj hrow
    rw [traded_of_unwritten hw hnone]
    exact ⟨rfl, (add_zero _).symm, (sub_zero _).symm, le_rfl,
      (hdb.filled orderId base hbase).remaining_nonneg⟩

/-- A match moves the same quantity for the taker, for the maker and in the trades. -/
theorem accounts_fill {makerFilled : ℤ} {tradeId : Uuid} (hw : Holding p s w)
    (hdb : Accounted s.store.db) (ha : Accounts s.store.db w (.updating maker makerFilled))
    (hcurrent : MakerCurrent s.store.db w maker makerFilled)
    (hunfinished : finished point' = false) :
    Accounts s.store.db (w.fill s.store.db maker makerFilled tradeId) point' := by
  obtain ⟨hcommitted, hversion⟩ := hcurrent
  obtain ⟨base, hbase⟩ := Option.isSome_iff_exists.mp hcommitted
  obtain ⟨order, hrow, hvalues⟩ := Option.map_eq_some_iff.mp hversion
  obtain ⟨hfilled, hremaining⟩ := Prod.mk.inj hvalues
  have hne : maker.orderId ≠ w.takerOrder.id := by
    intro he
    rw [he, hw.fresh] at hbase
    cases hbase
  have hmoved := moved_of_findById hw hdb ha hne hbase hrow
  have hquantity : 0 ≤ w.matchAmount maker :=
    le_min ha.remaining_nonneg (hremaining ▸ hmoved.remaining_nonneg)
  have hle : w.matchAmount maker ≤ w.currentTakerRemaining := min_le_left _ _
  have hle' : w.matchAmount maker ≤ maker.remainingAmount := min_le_right _ _
  have htotal := ha.total
  have hnonneg := ha.filled_nonneg
  refine ⟨?_, ?_, ?_, ?_, fun row hlookup => ?_, fun k row hk hlookup => ?_⟩
  · simp only [UnitOfWork.fill_currentTakerFilled, UnitOfWork.fill_currentTakerRemaining,
      UnitOfWork.fill_takerOrder]
    linarith
  · rw [UnitOfWork.fill_currentTakerFilled]
    linarith
  · rw [UnitOfWork.fill_currentTakerRemaining]
    linarith
  · rw [tradedQuantity_fill, UnitOfWork.fill_takerOrder, if_pos (Or.inl rfl), ha.traded,
      UnitOfWork.fill_currentTakerFilled]
  · rw [UnitOfWork.fill_rows, UnitOfWork.fill_takerOrder, lookup_write_updateExecution,
      if_neg (Ne.symm hne)] at hlookup
    exact ⟨(ha.taker row hlookup).1, fun h => by simp [hunfinished] at h⟩
  · rw [UnitOfWork.fill_rows, lookup_write_updateExecution] at hlookup
    rw [tradedQuantity_fill]
    split at hlookup
    · next he =>
      subst he
      rw [UnitOfWork.updateExecution, hrow, Option.map_some] at hlookup
      obtain rfl := Option.some.inj hlookup
      rw [if_pos (Or.inr rfl)]
      refine ⟨base, hbase, hmoved.amount_eq, ?_, ?_, add_nonneg hmoved.quantity_nonneg hquantity,
        sub_nonneg.mpr hle'⟩
      · rw [UnitOfWork.executed, ← hfilled, hmoved.filled_eq]
        ring
      · rw [UnitOfWork.executed, UnitOfWork.newMakerRemaining, ← hremaining, hmoved.remaining_eq]
        ring
    · next he =>
      have hother : ¬(k = w.takerOrder.id ∨ k = maker.orderId) := fun h => h.elim hk he
      rw [if_neg hother, add_zero]
      exact ha.makers k row hk hlookup

theorem accounts_finish (hw : Holding p s w) (ha : Accounts s.store.db w .updatingTaker) :
    Accounts s.store.db (w.finish s.store.db) point' := by
  obtain ⟨taker, htaker⟩ := Option.isSome_iff_exists.mp hw.own
  refine ⟨ha.total, ha.filled_nonneg, ha.remaining_nonneg, ha.traded, fun row hlookup => ?_,
    fun k row hk hlookup => ?_⟩
  · rw [UnitOfWork.finish_rows, UnitOfWork.finish_takerOrder, lookup_write_updateExecution,
      if_pos rfl, UnitOfWork.updateExecution, UnitOfWork.findById, htaker, Option.some_or,
      Option.map_some] at hlookup
    obtain rfl := Option.some.inj hlookup
    exact ⟨(ha.taker taker htaker).1, fun _ => ⟨rfl, rfl⟩⟩
  · rw [UnitOfWork.finish_takerOrder] at hk
    rw [UnitOfWork.finish_rows, lookup_write_updateExecution, if_neg hk] at hlookup
    exact ha.makers k row hk hlookup

theorem accounted_install {rows : List Order} {events : List OutboxEvent} (hdb : Accounted db)
    (hrows : ∀ orderId row, lookup Order.id rows orderId = some row →
      Filled row (tradedQuantity db.trades orderId +
        tradedQuantity (events.filterMap OutboxEvent.trade) orderId))
    (hnamed : ∀ e ∈ events.filterMap OutboxEvent.trade, ∀ orderId, e.Names orderId →
      (lookup Order.id rows orderId).isSome) : Accounted (db.install rows events) := by
  refine ⟨fun orderId order horder => ?_, fun e he orderId hnames => ?_⟩
  · rw [trades_install, tradedQuantity_append]
    rw [findById_install, Option.or_eq_some_iff] at horder
    rcases horder with horder | ⟨hnone, horder⟩
    · exact hrows orderId order horder
    · have hnew : tradedQuantity (events.filterMap OutboxEvent.trade) orderId = 0 :=
        tradedQuantity_eq_zero fun e he hnames => by
          simpa [hnone] using hnamed e he orderId hnames
      rw [hnew, add_zero]
      exact hdb.filled orderId order horder
  · rw [findById_install, Option.isSome_or, Bool.or_eq_true]
    rw [trades_install, List.mem_append] at he
    rcases he with he | he
    · exact Or.inr (hdb.named e he orderId hnames)
    · exact Or.inl (hnamed e he orderId hnames)

/-- A new order has a remaining amount that is not negative, and nothing filled. -/
theorem newOrder_amount {request : ValidRequest} {newId : Uuid}
    (h : newOrder request.val newId = some order) :
    0 ≤ order.amount ∧ order.remainingAmount = order.amount ∧ order.filledAmount = 0 := by
  simp only [newOrder, Option.bind_eq_bind, Option.bind_eq_some_iff, Option.pure_def,
    Option.some.injEq] at h
  obtain ⟨price, -, amount, hamount, rfl⟩ := h
  exact ⟨toColumn_nonneg (validateCreateOrderRequest_eq_none request.property).2 hamount, rfl, rfl⟩

theorem accounts_start {request : ValidRequest} {newId : Uuid}
    (h : newOrder request.val newId = some order) :
    Accounts db (.start order) .sequencing := by
  obtain ⟨hamount, hremaining, hfilled⟩ := newOrder_amount h
  refine ⟨?_, hfilled.ge, hamount.trans hremaining.ge, hfilled.symm, fun row hrow => ?_,
    fun k row hk hrow => ?_⟩
  · change order.filledAmount + order.remainingAmount = order.amount
    rw [hfilled, hremaining, zero_add]
  · obtain ⟨hmem, -⟩ := lookup_mem hrow
    obtain rfl := List.mem_singleton.mp hmem
    exact ⟨rfl, fun h => by cases h⟩
  · obtain ⟨hmem, rfl⟩ := lookup_mem hrow
    obtain rfl := List.mem_singleton.mp hmem
    exact absurd rfl hk

/-- Committing a unit of work adds its trades to what its rows say is filled. -/
theorem accounted_commit (hdb : Accounted s.store.db) (hw : Holding p s w)
    (hbooked : Booked w .committing) (ha : Accounts s.store.db w .committing) :
    Accounted (s.store.db.install w.rows w.outboxList) := by
  have hevents : (w.outboxList.filterMap OutboxEvent.trade).map unnumbered = reported w.trades := by
    simpa [Booked, pending, reported] using hbooked
  have htraded (orderId : Uuid) : tradedQuantity (w.outboxList.filterMap OutboxEvent.trade) orderId =
      tradedQuantity (reported w.trades) orderId := by
    rw [← tradedQuantity_unnumbered, hevents]
  refine accounted_install hdb (fun orderId row hrow => ?_) fun e he orderId hnames => ?_
  · rw [htraded]
    by_cases htaker : orderId = w.takerOrder.id
    · subst htaker
      obtain ⟨hamount, hvalues⟩ := ha.taker row hrow
      obtain ⟨hfilled, hremaining⟩ := hvalues rfl
      have hnew : tradedQuantity s.store.db.trades w.takerOrder.id = 0 :=
        tradedQuantity_eq_zero fun e he hnames => by
          simpa [hw.fresh] using hdb.named e he _ hnames
      rw [hnew, ha.traded, zero_add]
      refine ⟨?_, hfilled ▸ ha.filled_nonneg, hremaining ▸ ha.remaining_nonneg, hfilled⟩
      rw [hfilled, hremaining, hamount]
      exact ha.total
    · obtain ⟨base, hbase, hmoved⟩ := ha.makers orderId row htaker hrow
      exact hmoved.filled (hdb.filled orderId base hbase)
  · refine hw.named (unnumbered e) ?_ orderId hnames
    rw [← hevents]
    exact List.mem_map_of_mem he

theorem accounted_cancel {request : CancelOrderRequest} {updated : Order} {event : OutboxEvent}
    (hdb : Accounted s.store.db) (hc : Cancels p s request updated) (hevent : event.trade = none) :
    Accounted (s.store.db.install [updated] [event]) := by
  obtain ⟨order, horder, rfl⟩ := hc.row
  obtain ⟨hfind, hid, -⟩ := cancellableOrder_eq_some horder
  have hnone : [event].filterMap OutboxEvent.trade = [] := by simp [hevent]
  refine accounted_install hdb (fun orderId row hrow => ?_) (by simp [hnone])
  obtain ⟨hmem, rfl⟩ := lookup_mem hrow
  obtain rfl := List.mem_singleton.mp hmem
  rw [hnone]
  have hfilled := hdb.filled request.orderId order hfind
  rw [← hid] at hfilled
  exact ⟨hfilled.total, hfilled.filled_nonneg, hfilled.remaining_nonneg,
    hfilled.filled_eq.trans (add_zero _).symm⟩

theorem accounted_of_eq {db' : OrdersDb} (hdb : Accounted db) (horders : db'.orders = db.orders)
    (hevents : db'.outboxEvents = db.outboxEvents) : Accounted db' := by
  have hfind (orderId : Uuid) : db'.findById orderId = db.findById orderId := by
    rw [OrdersDb.findById, horders, OrdersDb.findById]
  have htrades : db'.trades = db.trades := by rw [OrdersDb.trades, hevents, OrdersDb.trades]
  refine ⟨fun orderId order horder => ?_, fun e he orderId hnames => ?_⟩
  · rw [htrades]
    exact hdb.filled orderId order (hfind orderId ▸ horder)
  · rw [hfind]
    exact hdb.named e (htrades ▸ he) orderId hnames

theorem callAccounts_of_inert (h : Inert l) : CallAccounts db l := by
  unfold CallAccounts
  split
  · exact h.elim
  · trivial

private theorem placed_accounts (hdb : Accounted s.store.db) (hi : Holding p s w ∧ Booked w point)
    (ha : Accounts s.store.db w point) {request : ValidRequest} {recordId : Uuid}
    (hmeets : Meets MakerCurrent s.store.db
      (.creating request (.placing recordId (.active w point))) action)
    (h : ActiveStep p s w point action s' placing) :
    Accounted s'.store.db ∧
      CallAccounts s'.store.db (.creating request (.placing recordId placing)) := by
  obtain ⟨hw, hbooked⟩ := hi
  cases h with
  | quiet hstore hfinished =>
    simp only [CallAccounts, hstore]
    exact ⟨hdb, ha.total, ha.filled_nonneg, ha.remaining_nonneg, ha.traded,
      fun row hrow => ⟨(ha.taker row hrow).1, fun h => (ha.taker row hrow).2 (hfinished ▸ h)⟩,
      ha.makers⟩
  | matched _ _ hunfinished =>
    exact ⟨hdb, accounts_fill (s := s) hw hdb ha (hmeets _ _ _ _ _ _ rfl rfl) hunfinished⟩
  | unmatched hnone =>
    have hcurrent := hmeets _ _ _ _ _ _ rfl rfl
    simp [MakerCurrent, hnone] at hcurrent
  | finished => exact ⟨hdb, accounts_finish hw ha⟩
  | committed hended =>
    refine ⟨accounted_commit hdb hw hbooked ha, callAccounts_of_inert ?_⟩
    cases placing with
    | active u at' => exact absurd rfl (hended u at')
    | _ => trivial
  | aborted => exact ⟨hdb, trivial⟩

theorem accounts_keeps {q : ℕ} (h : Keeps view q s s') (hw : Holding q s w)
    (ha : Accounts s.store.db w point) : Accounts s'.store.db w point := by
  refine ⟨ha.total, ha.filled_nonneg, ha.remaining_nonneg, ha.traded, ha.taker,
    fun orderId row hne hrow => ?_⟩
  obtain ⟨base, hbase, hmoved⟩ := ha.makers orderId row hne hrow
  have hview : s'.store.db.findById orderId = s.store.db.findById orderId :=
    h.view_eq (hw.locked orderId (by rw [hrow]; rfl))
  exact ⟨base, hview.trans hbase, hmoved⟩

theorem preserved_accounted : Preserved MakerCurrent Accounted CallAccounts where
  committed _ _ _ _ h := h.1
  own p s l action s' l' hdb hi hcall hmeets h := by
    cases h with
    | quiet horders hevents _ hinert =>
      exact ⟨accounted_of_eq hdb horders hevents, callAccounts_of_inert hinert⟩
    | started horder => exact ⟨hdb, accounts_start horder⟩
    | placed hstep => exact placed_accounts hdb hi hcall hmeets hstep
    | held => exact ⟨hdb, trivial⟩
    | recorded => exact ⟨hdb, trivial⟩
    | cancelled hinert =>
      exact ⟨accounted_cancel hdb hi.1 hi.2, callAccounts_of_inert hinert⟩
  others q s s' l hi hkeeps hcall := by
    unfold CallAccounts at hcall ⊢
    split at hcall
    · exact accounts_keeps hkeeps hi.1 hcall
    · trivial

/-! ### Runs -/

/-- The row accounts for its amount and agrees with the trades of the committed events. -/
structure FillsAccounted (db : OrdersDb) (order : Order) : Prop where
  total : order.filledAmount + order.remainingAmount = order.amount
  filled_nonneg : 0 ≤ order.filledAmount
  traded : tradedQuantity db.trades order.id = order.filledAmount
  within : tradedQuantity db.trades order.id ≤ order.amount

/-- No overfill: in a run in which every update of a maker finds its committed row as it
was read, every committed row accounts for its amount and its trades. -/
theorem fills_accounted {d : OrdersConfig} {es : List (Event Action)}
    (h : OrdersRun MakerCurrent initial es d) :
    ∀ order ∈ d.shared.store.db.orders, FillsAccounted d.shared.store.db order := by
  intro order horder
  have hempty : Accounted .empty :=
    ⟨fun _ _ h => by simp [OrdersDb.findById, OrdersDb.empty, lookup] at h,
      fun _ h => by simp [OrdersDb.trades, OrdersDb.empty] at h⟩
  have hinv := run_invariant preserved_accounted (ordersInvariant_initial hempty trivial) h
  have hfind : d.shared.store.db.findById order.id = some order :=
    (lookup_eq_some hinv.unique).mpr ⟨horder, rfl⟩
  obtain ⟨htotal, hfilled, hremaining, htraded⟩ := hinv.orders.filled order.id order hfind
  exact ⟨htotal, hfilled, htraded.symm, by linarith⟩

/-! ### Two takers of one maker -/

/-- A request with a whole price and amount. -/
def limitOrder (userId : Uuid) (side : OrderSide) (price amount : ℕ) : CreateOrderRequest where
  userId
  pair := ⟨.eth, .usdt⟩
  side
  type := .limit
  price := ⟨toString price, .finite price⟩
  amount := ⟨toString amount, .finite amount⟩
  idempotencyKey := userId

def statements (p n : ℕ) : List (Event Action) := List.replicate n ⟨p, .statement⟩

/-- A call up to the read of the opposing book. -/
def opening (p : ℕ) (request : CreateOrderRequest) (orderId : Uuid) : List (Event Action) :=
  [⟨p, .createOrder request⟩, ⟨p, .statement⟩, ⟨p, .insert request.idempotencyKey⟩,
    ⟨p, .statement⟩, ⟨p, .reply .ok⟩, ⟨p, .insert orderId⟩] ++ statements p 3

/-- A seller offers two units and rests in the book. -/
def offer : List (Event Action) := opening 0 (limitOrder "seller" .sell 100 2) "m" ++ statements 0 8

/-- The first buyer of a unit changes the book before the second buyer reads it, and the
second one reads the row after the first has committed. -/
def successiveTakers : List (Event Action) :=
  offer ++ opening 1 (limitOrder "first" .buy 100 1) "a" ++ statements 1 4 ++
    [⟨1, .trade "t"⟩] ++ statements 1 1 ++ opening 2 (limitOrder "second" .buy 100 1) "b" ++
      statements 1 6 ++ statements 2 4 ++ [⟨2, .trade "u"⟩] ++ statements 2 8

theorem successiveTakers_executes : (ordersSystem.exec initial successiveTakers).isSome = true := by
  decide +kernel

theorem fills_accounted_successiveTakers :
    let db := ((ordersSystem.exec initial successiveTakers).get
      successiveTakers_executes).shared.store.db
    db.orders.length = 3 ∧ ∀ order ∈ db.orders, FillsAccounted db order :=
  ⟨by decide +kernel,
    fills_accounted (ordersRun_of_meetsCondition (Option.some_get _).symm (by decide +kernel))⟩

/-- Both buyers read the book and the row before either writes. -/
def simultaneousTakers : List (Event Action) :=
  offer ++ opening 1 (limitOrder "first" .buy 100 1) "a" ++
    opening 2 (limitOrder "second" .buy 100 1) "b" ++ statements 1 4 ++ statements 2 4 ++
      [⟨1, .trade "t"⟩] ++ statements 1 7 ++ [⟨2, .trade "u"⟩] ++ statements 2 7

theorem simultaneousTakers_executes :
    (ordersSystem.exec initial simultaneousTakers).isSome = true := by decide +kernel

/-- The second update overwrites the first: two units are traded for the maker, and its
row says that one is filled. -/
theorem fills_lost_simultaneousTakers : ¬∀ es d, ordersSystem.exec initial es = some d →
    ∀ order ∈ d.shared.store.db.orders, FillsAccounted d.shared.store.db order := by
  intro h
  have hmem : (⟨"m", "seller", ⟨.eth, .usdt⟩, .sell, .limit, 10000000000, 200000000, 100000000,
      100000000, .partiallyFilled, "seller"⟩ : Order) ∈
      ((ordersSystem.exec initial simultaneousTakers).get
        simultaneousTakers_executes).shared.store.db.orders := by decide +kernel
  have hfills := h _ _ (Option.some_get simultaneousTakers_executes).symm _ hmem
  have htraded : tradedQuantity ((ordersSystem.exec initial simultaneousTakers).get
      simultaneousTakers_executes).shared.store.db.trades "m" = 200000000 := by decide +kernel
  exact absurd (htraded.symm.trans hfills.traded) (by decide)

end EtherTrade.OrderFillLaws
