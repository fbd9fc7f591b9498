import Mathlib.Algebra.Order.BigOperators.Group.List
import EtherTrade.EmittedOrderEvents
import EtherTrade.LogPositions
import EtherTrade.OrderNotifications

/-!
# Consistent updates of orders

What the bridge tells users about their orders, against the committed versions of the orders.
The bridge gives the quantity of a trade as what is filled of both orders, with nothing
remaining, and says of a placed or cancelled order that nothing is filled. Its updates are
consistent in the runs in which it is right about that.
-/

namespace EtherTrade.OrderNotificationLaws

open KeyedRows AccountsSchema OrdersSchema OrderBook MatchingEngine
open InterleavedProcesses ResourceLocks OrdersTransactions OrdersTransactionInvariants
open OrdersTransactionSteps OrdersTransactionRuns OrderFillLaws EmittedOrderEvents
open LogPositions OrderNotifications
open BridgedOutbox (Recorded serviceConfig newEvents)
open OutboxRelay (OutboxRow)
open TradeSettlement (TradingSymbol)

variable {db : OrdersDb} {p : ℕ} {s s' : Shared} {w : UnitOfWork} {l l' : Process}
  {action : Action} {order : Order} {event : OutboxEvent} {events earlier later : List OutboxEvent}
  {trades : List TradeExecutedEvent} {orders orders' : List Order} {update : OrderUpdate}
  {row : OutboxRow OutboxEvent} {rows more : List (OutboxRow OutboxEvent)}

/-- The message gives the values of this version of the order, and its quantities make up the
amount. -/
structure Describes (order : Order) (m : WsUserOrderUpdateMessage) : Prop where
  orderId : order.id = m.orderId
  total : m.filledQuantity.units + m.remainingQuantity.units = order.amount
  filled : m.filledQuantity.units = order.filledAmount
  remaining : m.remainingQuantity.units = order.remainingAmount
  status : m.status = order.status

/-- An update of one of these versions, that says is filled what these trades come to. -/
structure Reports (orders : List Order) (trades : List TradeExecutedEvent) (update : OrderUpdate) :
    Prop where
  version : ∃ order ∈ orders, Describes order update.message
  filled : update.message.filledQuantity.units = tradedQuantity trades update.message.orderId

/-- What the bridge takes for granted about an event, given the trades before it and the event
after it: it reports no trade, an order that is placed has an amount and was not matched in its
transaction, and nothing was traded of an order that is cancelled. -/
def Presumed (trades : List TradeExecutedEvent) (next : Option OutboxEvent) (event : OutboxEvent) :
    Prop :=
  match event.payload with
  | .tradeExecuted _ => False
  | .orderPlaced payload => payload.quantity ≠ 0 ∧ next.bind OutboxEvent.trade = none
  | .orderCancelled payload => tradedQuantity trades payload.orderId = 0
  | .orderFilled _ => True

instance (next : Option OutboxEvent) : Decidable (Presumed trades next event) := by
  unfold Presumed
  split <;> infer_instance

theorem Reports.mono (h : Reports orders trades update) (hsub : orders ⊆ orders') :
    Reports orders' trades update := by
  obtain ⟨order, horder, hdescribes⟩ := h.version
  exact ⟨⟨order, hsub horder, hdescribes⟩, h.filled⟩

theorem presumed_trade {next : Option OutboxEvent} (h : Presumed trades next event) :
    event.trade = none := by
  unfold Presumed at h
  unfold OutboxEvent.trade
  split at h
  · exact h.elim
  all_goals next heq => rw [heq]

/-! ### The events of one transaction -/

/-- A row that accounts for what was traded is described by an update with its values. -/
theorem reports_of_filled {quantity : ℤ} (hrow : db.findById order.id = some order)
    (hfilled : Filled order quantity) (hquantity : tradedQuantity trades order.id = quantity)
    (hid : update.message.orderId = order.id)
    (hvalue : update.message.filledQuantity.units = order.filledAmount)
    (hremaining : update.message.remainingQuantity.units = order.remainingAmount)
    (hstatus : update.message.status = order.status) : Reports db.orders trades update := by
  refine ⟨⟨order, (lookup_mem hrow).1, hid.symm, ?_, hvalue, hremaining, hstatus⟩, ?_⟩
  · rw [hvalue, hremaining, hfilled.total]
  · rw [hvalue, hfilled.filled_eq, hid, hquantity]

theorem reports_filled (hdb : Accounted db)
    (hrow : db.findById order.id = some order) (hstatus : order.status = .filled)
    (htrades : tradedQuantity trades order.id = tradedQuantity db.trades order.id) :
    ∀ update ∈ orderUpdates (orderFilledEvent order).payload, Reports db.orders trades update := by
  intro update hupdate
  obtain rfl := List.mem_singleton.mp hupdate
  exact reports_of_filled hrow (hdb.filled order.id order hrow) htrades rfl rfl rfl hstatus.symm

theorem reports_cancelled {levelTotalQuantity : ℤ} {sequenceId : ℕ} (hdb : Accounted db)
    (hrow : db.findById order.id = some order) (hstatus : order.status = .cancelled)
    (htrades : tradedQuantity trades order.id = tradedQuantity db.trades order.id)
    (hnothing : tradedQuantity trades order.id = 0) :
    ∀ update ∈ orderUpdates (orderCancelledEvent order levelTotalQuantity sequenceId).payload,
      Reports db.orders trades update := by
  intro update hupdate
  obtain rfl := List.mem_singleton.mp hupdate
  have hfilled := hdb.filled order.id order hrow
  refine reports_of_filled hrow hfilled htrades rfl ?_ rfl hstatus.symm
  change 0 = order.filledAmount
  rw [hfilled.filled_eq, ← htrades, hnothing]

/-- An order that is placed and not matched is open, and nothing of it is filled. -/
theorem reports_placed {levelTotalQuantity : ℤ} {sequenceId : ℕ} (hdb : Accounted db)
    (hrow : db.findById order.id = some order) (hamount : w.takerOrder.amount = order.amount)
    (hid : w.takerOrder.id = order.id) (hstatus : order.status = .opened)
    (hnothing : order.filledAmount = 0)
    (htrades : tradedQuantity trades order.id = tradedQuantity db.trades order.id) :
    ∀ update ∈ orderUpdates (orderPlacedEvent w.takerOrder levelTotalQuantity sequenceId).payload,
      Reports db.orders trades update := by
  intro update hupdate
  obtain rfl := List.mem_singleton.mp hupdate
  have hfilled := hdb.filled order.id order hrow
  refine reports_of_filled hrow hfilled htrades hid hnothing.symm ?_ hstatus.symm
  change w.takerOrder.amount = order.remainingAmount
  rw [hamount, ← hfilled.total, hnothing, zero_add]

theorem trades_eq_nil (hbooked : Booked w .committing)
    (h : w.outboxList.filterMap OutboxEvent.trade = []) : w.trades = [] := by
  have hreported := trades_committing hbooked
  rw [h, List.map_nil] at hreported
  exact List.map_eq_nil_iff.mp hreported.symm

/-- The row of a taker that matched nothing. -/
theorem taker_unmatched (ha : Accounts db w .committing) (hs : Settled w .committing)
    (htrades : w.trades = []) (hamount : w.takerOrder.amount ≠ 0) :
    lookup Order.id w.rows w.takerOrder.id = some w.updatedTaker ∧
      w.updatedTaker.amount = w.takerOrder.amount ∧ w.updatedTaker.status = .opened ∧
        w.updatedTaker.filledAmount = 0 := by
  obtain ⟨hlookup, hstatus⟩ := hs.taker rfl
  obtain ⟨hsame, hvalues⟩ := ha.taker _ hlookup
  have hfilled : w.currentTakerFilled = 0 := by
    rw [← ha.traded, htrades]
    rfl
  have hremaining : w.currentTakerRemaining ≠ 0 := by
    have htotal := ha.total
    rw [hfilled, zero_add] at htotal
    rwa [htotal]
  refine ⟨hlookup, hsame, ?_, (hvalues rfl).1.trans hfilled⟩
  rw [hstatus, UnitOfWork.takerStatus, if_neg hremaining, hfilled, if_neg (lt_irrefl 0)]

/-- Where a list of trades is followed by other events, a part that ends with one of those has
all the trades. -/
theorem split_of_trades {executed others : List OutboxEvent}
    (hexecuted : ∀ event ∈ executed, event.trade.isSome)
    (hothers : ∀ event ∈ others, event.trade = none)
    (h : executed ++ others = earlier ++ event :: later) (hevent : event.trade = none) :
    event ∈ others ∧ earlier.filterMap OutboxEvent.trade =
      (executed ++ others).filterMap OutboxEvent.trade := by
  rcases List.append_eq_append_iff.mp h with ⟨skipped, rfl, hothers'⟩ | ⟨rest, rfl, hrest⟩
  · have hnone : others.filterMap OutboxEvent.trade = [] := List.filterMap_eq_nil_iff.mpr hothers
    have hskipped : skipped.filterMap OutboxEvent.trade = [] :=
      List.filterMap_eq_nil_iff.mpr fun other hother =>
        hothers other (hothers' ▸ List.mem_append_left _ hother)
    refine ⟨hothers' ▸ List.mem_append_right _ List.mem_cons_self, ?_⟩
    rw [List.filterMap_append, List.filterMap_append, hnone, hskipped]
  · cases rest with
    | nil =>
      rw [List.nil_append] at hrest
      have hnone : others.filterMap OutboxEvent.trade = [] := List.filterMap_eq_nil_iff.mpr hothers
      refine ⟨hrest ▸ List.mem_cons_self, ?_⟩
      rw [List.filterMap_append, hnone, List.append_nil, List.append_nil]
    | cons first rest =>
      obtain ⟨rfl, -⟩ := List.cons.inj hrest
      have hsome := hexecuted event (List.mem_append_right _ List.mem_cons_self)
      rw [hevent] at hsome
      cases hsome

/-- The updates of the events that a unit of work commits. -/
theorem reports_commit (hdb : Accounted s.store.db) (hw : Holding p s w)
    (hbooked : Booked w .committing) (ha : Accounts s.store.db w .committing)
    (hs : Settled w .committing) (hemitted : Emitted w .committing)
    (hsplit : w.outboxList = earlier ++ event :: later)
    (hpresumed : Presumed (s.store.db.trades ++ earlier.filterMap OutboxEvent.trade) later.head?
      event) : ∀ update ∈ orderUpdates event.payload,
        Reports (s.store.db.install w.rows w.outboxList).orders
          (s.store.db.trades ++ earlier.filterMap OutboxEvent.trade) update := by
  have haccounted := accounted_commit hdb hw hbooked ha
  have hrow {orderId : Uuid} {order : Order} (h : lookup Order.id w.rows orderId = some order) :
      (s.store.db.install w.rows w.outboxList).findById orderId = some order := by
    rw [findById_install, h, Option.some_or]
  have htrades {orderId : Uuid} (h : earlier.filterMap OutboxEvent.trade =
      w.outboxList.filterMap OutboxEvent.trade) :
      tradedQuantity (s.store.db.trades ++ earlier.filterMap OutboxEvent.trade) orderId =
        tradedQuantity (s.store.db.install w.rows w.outboxList).trades orderId := by
    rw [trades_install, h]
  obtain ⟨opening, ⟨levelTotalQuantity, sequenceId, executed, rfl, hexecuted⟩, houtbox⟩ := hemitted
  have hothers : ∀ event ∈ w.orderFilledEvents, event.trade = none := by
    intro event hevent
    obtain ⟨order, -, rfl⟩ := List.mem_map.mp hevent
    rfl
  have hlist := houtbox.symm.trans hsplit
  rw [List.cons_append] at hlist
  rcases List.cons_eq_append_iff.mp hlist with ⟨rfl, hplaced⟩ | ⟨skipped, rfl, hrest⟩
  · obtain ⟨rfl, rfl⟩ := List.cons.inj hplaced
    obtain ⟨hamount, hnext⟩ := hpresumed
    obtain rfl : executed = [] := by
      cases executed with
      | nil => rfl
      | cons trade executed =>
        have hsome := hexecuted trade List.mem_cons_self
        rw [List.cons_append, List.head?_cons, Option.bind_some] at hnext
        rw [hnext] at hsome
        cases hsome
    have hnone : w.outboxList.filterMap OutboxEvent.trade = [] := by
      rw [houtbox, List.filterMap_append, trade_orderFilledEvents]
      rfl
    obtain ⟨hlookup, hsame, hstatus, hnothing⟩ :=
      taker_unmatched ha hs (trades_eq_nil hbooked hnone) hamount
    have hid := (lookup_mem hlookup).2
    refine reports_placed haccounted ?_ hsame.symm hid.symm hstatus hnothing (htrades ?_)
    · rw [hid]
      exact hrow hlookup
    · rw [hnone, List.filterMap_nil]
  · obtain ⟨hmem, hsame⟩ :=
      split_of_trades hexecuted hothers hrest (presumed_trade hpresumed)
    obtain ⟨order, horder, rfl⟩ := List.mem_map.mp hmem
    obtain ⟨horder, hstatus⟩ := List.mem_filter.mp horder
    have hfilled : order.status = .filled := of_decide_eq_true hstatus
    refine reports_filled haccounted (hrow (lookup_of_filled hs horder hfilled)) hfilled
      (htrades ?_)
    rw [houtbox, List.cons_append, List.filterMap_cons_none rfl, List.filterMap_cons_none rfl]
    exact hsame

/-- The update of the event of a cancelled order. -/
theorem reports_cancel {request : CancelOrderRequest} {updated : Order}
    {levelTotalQuantity : ℤ} {sequenceId : ℕ} (hdb : Accounted s.store.db)
    (hc : Cancels p s request updated)
    (hpresumed : Presumed s.store.db.trades none
      (orderCancelledEvent updated levelTotalQuantity sequenceId)) :
    ∀ update ∈ orderUpdates (orderCancelledEvent updated levelTotalQuantity sequenceId).payload,
      Reports (s.store.db.install [updated]
        [orderCancelledEvent updated levelTotalQuantity sequenceId]).orders
          s.store.db.trades update := by
  have haccounted : Accounted (s.store.db.install [updated]
      [orderCancelledEvent updated levelTotalQuantity sequenceId]) :=
    accounted_cancel hdb hc rfl
  refine reports_cancelled haccounted ?_ ?_ ?_ hpresumed
  · rw [findById_install]
    simp [lookup]
  · obtain ⟨order, -, rfl⟩ := hc.row
    rfl
  · rw [trades_install, List.filterMap_cons_none rfl, List.filterMap_nil, List.append_nil]

/-! ### The events of a step -/

theorem newEvents_of_eq (h : s'.store.db.outboxEvents = s.store.db.outboxEvents) :
    newEvents ordersService s s' = [] := by
  change s'.store.db.outboxEvents.drop s.store.db.outboxEvents.length = []
  rw [h, List.drop_length]

theorem newEvents_commit {written : List Order} :
    newEvents ordersService s (commit p s written events) = events := List.drop_left

/-- The updates of the events that a step commits. -/
theorem reports_newEvents (hdb : SettledDb s.store.db) (hi : ProcessInvariant p s l)
    (hcall : CallAccounts s.store.db l ∧ CallSettled l) (hemitted : EmittedBy l)
    (h : ProcessStep p s l action s' l')
    (hsplit : newEvents ordersService s s' = earlier ++ event :: later)
    (hpresumed : Presumed (s.store.db.trades ++ earlier.filterMap OutboxEvent.trade) later.head?
      event) : ∀ update ∈ orderUpdates event.payload, Reports s'.store.db.orders
        (s.store.db.trades ++ earlier.filterMap OutboxEvent.trade) update := by
  have hnothing (hsame : s'.store.db.outboxEvents = s.store.db.outboxEvents) : False := by
    rw [newEvents_of_eq hsame] at hsplit
    exact absurd hsplit (by simp)
  cases h with
  | quiet _ hevents => exact (hnothing hevents).elim
  | placed hstep =>
    cases hstep with
    | quiet hstore => exact (hnothing (congrArg OrdersDb.outboxEvents hstore)).elim
    | committed =>
      rw [newEvents_commit] at hsplit
      exact reports_commit hdb.accounted hi.1 hi.2 hcall.1 hcall.2 hemitted hsplit hpresumed
    | _ => exact (hnothing rfl).elim
  | @cancelled request updated committed =>
    rw [newEvents_commit] at hsplit
    obtain ⟨rfl, rfl, rfl⟩ : earlier = [] ∧ committed = event ∧ later = [] := by
      rcases List.cons_eq_append_iff.mp hsplit with ⟨rfl, heq⟩ | ⟨skipped, -, heq⟩
      · obtain ⟨hevent, hlater⟩ := List.cons.inj heq
        exact ⟨rfl, hevent.symm, hlater⟩
      · exact absurd heq (by simp)
    obtain ⟨levelTotalQuantity, sequenceId, rfl⟩ := hemitted
    rw [List.filterMap_nil, List.append_nil] at hpresumed ⊢
    exact reports_cancel hdb.accounted hi.1 hpresumed
  | _ => exact (hnothing rfl).elim

/-! ### The log of rows -/

def tradesOf (rows : List (OutboxRow OutboxEvent)) : List TradeExecutedEvent :=
  (rows.map OutboxRow.event).filterMap OutboxEvent.trade

/-- What the bridge takes for granted about a row of the outbox. -/
def RowPresumed (rows : List (OutboxRow OutboxEvent)) (row : OutboxRow OutboxEvent) : Prop :=
  Presumed (tradesOf (before rows row)) ((following rows row).map OutboxRow.event) row.event

instance : Decidable (RowPresumed rows row) := inferInstanceAs (Decidable (Presumed _ _ _))

/-- The updates that are made of a row report these versions of the orders. -/
def RowReports (orders : List Order) (rows : List (OutboxRow OutboxEvent))
    (row : OutboxRow OutboxEvent) : Prop :=
  ∀ update ∈ orderUpdates row.event.payload, Reports orders (tradesOf (before rows row)) update

theorem RowReports.mono (h : RowReports orders rows row) (hmem : row ∈ rows)
    (hsub : orders ⊆ orders') : RowReports orders' (rows ++ more) row := by
  intro update hupdate
  rw [before_append hmem]
  exact (h update hupdate).mono hsub

/-- What holds of a row in a longer log held before. -/
theorem RowPresumed.of_append (h : RowPresumed (rows ++ more) row) (hmem : row ∈ rows) :
    RowPresumed rows row := by
  unfold RowPresumed Presumed at h ⊢
  rw [before_append hmem] at h
  split
  · next heq => simp only [heq] at h
  · next heq =>
    simp only [heq] at h
    refine ⟨h.1, ?_⟩
    cases hnext : following rows row with
    | none => rfl
    | some next =>
      rw [following_append hmem hnext] at h
      exact h.2
  · next heq => simpa only [heq] using h
  · trivial

/-- What the log says is filled of an order does not shrink. -/
theorem tradedQuantity_le {trades' : List TradeExecutedEvent} {orderId : Uuid}
    (h : trades <+: trades') (hnonneg : ∀ trade ∈ trades', 0 ≤ trade.quantity) :
    tradedQuantity trades orderId ≤ tradedQuantity trades' orderId := by
  obtain ⟨later, rfl⟩ := h
  rw [tradedQuantity_append]
  refine le_add_of_nonneg_right (List.sum_nonneg fun n hn => ?_)
  obtain ⟨trade, htrade, rfl⟩ := List.mem_map.mp hn
  split
  · exact hnonneg trade (List.mem_append_right _ htrade)
  · exact le_rfl

/-- The updates of all rows, once more rows are inserted. -/
theorem rowReports_insert (hnodup : (rows ++ more).Nodup) (hsub : orders ⊆ orders')
    (hrows : ∀ row ∈ rows, RowPresumed rows row → RowReports orders rows row)
    (hmore : ∀ earlier row later, more = earlier ++ row :: later →
      Presumed (tradesOf rows ++ tradesOf earlier) (later.head?.map OutboxRow.event) row.event →
        ∀ update ∈ orderUpdates row.event.payload,
          Reports orders' (tradesOf rows ++ tradesOf earlier) update) :
    ∀ row ∈ rows ++ more, RowPresumed (rows ++ more) row →
      RowReports orders' (rows ++ more) row := by
  intro row hrow hpresumed
  by_cases hold : row ∈ rows
  · exact (hrows row hold (hpresumed.of_append hold)).mono hold hsub
  · obtain ⟨earlier, later, rfl, hfirst⟩ :=
      List.eq_append_cons_of_mem ((List.mem_append.mp hrow).resolve_left hold)
    have hbehind : row ∉ rows ++ earlier := by
      rw [List.mem_append]
      exact fun hmem => hmem.elim hold hfirst
    have htrades : tradesOf (rows ++ earlier) = tradesOf rows ++ tradesOf earlier := by
      simp only [tradesOf, List.map_append, List.filterMap_append]
    rw [RowPresumed, ← List.append_assoc, before_split hbehind, following_split hbehind,
      htrades] at hpresumed
    rw [RowReports, ← List.append_assoc, before_split hbehind, htrades]
    exact hmore earlier row later rfl hpresumed

/-! ### The invariant -/

/-- The orders service by itself. -/
structure Settling (c : OrdersConfig) : Prop where
  orders : OrdersInvariant SettledDb (fun db l => CallAccounts db l ∧ CallSettled l) c
  emitted : ∀ p, EmittedBy (c.procs p)

theorem Settling.next {c d : OrdersConfig} {e : Event Action} (h : Settling c)
    (hguard : OrdersTransactionRuns.Guard MakerCurrent c e)
    (hnext : ordersSystem.next c e = some d) : Settling d :=
  ⟨ordersInvariant_next preserved_settled h.orders hguard hnext, fun q =>
    System.next_proc hnext (h.emitted q) fun _ _ _ _ hstep => emittedBy_step hstep (h.emitted q)⟩

theorem settling_initial : Settling OrdersTransactions.initial where
  orders := ordersInvariant_initial
    ⟨⟨fun _ _ h => by simp [OrdersDb.findById, OrdersDb.empty, lookup] at h,
      fun _ h => by simp [OrdersDb.trades, OrdersDb.empty] at h⟩,
      fun _ h => by simp [OrdersDb.trades, OrdersDb.empty] at h⟩ ⟨trivial, trivial⟩
  emitted _ := trivial

/-- The committed versions of the orders along a run. -/
def versions (ts : List NotifyingTransition) : List Order :=
  ts.flatMap fun t => t.after.shared.service.store.db.orders

/-- The condition on a step: an update of a maker finds its committed row as it was read, and the
bridge is right in what it takes for granted about a row. -/
def Guard (c : NotifyingConfig) (e : Event NotifyingAction) : Prop :=
  (∀ action rows, e.action = .serve action rows →
    OrdersTransactionRuns.Guard MakerCurrent (serviceConfig c) ⟨e.proc, action⟩) ∧
  ∀ row context sent, e.action = .handleMessage row context sent → sent ≠ 0 →
    RowPresumed c.shared.inserted row

variable {c d : NotifyingConfig} {e : Event NotifyingAction} {ts : List NotifyingTransition}
  {es : List (Event NotifyingAction)}

structure Notified (ts : List NotifyingTransition) (c : NotifyingConfig) : Prop where
  recorded : Recorded ordersService c
  settling : Settling (serviceConfig c)
  logged : ∀ row ∈ c.shared.inserted, RowPresumed c.shared.inserted row →
    RowReports (versions ts) c.shared.inserted row
  published : ∀ x ∈ c.shared.published,
    Reports (versions ts) (tradesOf (before c.shared.inserted x.1)) x.2

theorem versions_subset {t : NotifyingTransition} : versions ts ⊆ versions (ts ++ [t]) := by
  rw [versions, versions, List.flatMap_append]
  exact List.subset_append_left _ _

theorem orders_subset_versions {t : NotifyingTransition} :
    t.after.shared.service.store.db.orders ⊆ versions (ts ++ [t]) := by
  rw [versions, List.flatMap_append, List.flatMap_singleton]
  exact List.subset_append_right _ _

theorem tradesOf_inserted (h : Recorded ordersService c) :
    tradesOf c.shared.inserted = c.shared.service.store.db.trades := by
  rw [tradesOf, h.events]
  rfl

theorem settling_next (h : Settling (serviceConfig c)) (hguard : Guard c e)
    (hnext : notifyingSystem.next c e = some d) : Settling (serviceConfig d) := by
  rcases BridgedOutbox.serviceConfig_next hnext with ⟨action, rows, haction, hservice⟩ | ⟨-, hsame⟩
  · exact h.next (hguard.1 action rows haction) hservice
  · rwa [hsame]

/-- The rows that a step of the service inserts. -/
theorem logged_served {service : Shared} {call' : Process} (h : Notified ts c)
    (hrecorded : Recorded ordersService d)
    (hservice : step e.proc c.shared.service (c.procs e.proc).1 action = some (service, call'))
    (hrows : rows.map OutboxRow.event = newEvents ordersService c.shared.service service)
    (hinserted : d.shared.inserted = c.shared.inserted ++ rows)
    (hd : d.shared.service = service) :
    ∀ row ∈ d.shared.inserted, RowPresumed d.shared.inserted row →
      RowReports (versions (ts ++ [⟨c, e, d⟩])) d.shared.inserted row := by
  have hnodup := List.Nodup.of_map _ hrecorded.ids
  rw [hinserted] at hnodup ⊢
  refine rowReports_insert hnodup versions_subset h.logged
    fun earlier row later hsplit hpresumed update hupdate => ?_
  rw [hsplit, List.map_append, List.map_cons] at hrows
  rw [tradesOf_inserted h.recorded] at hpresumed ⊢
  have hhead : later.head?.map OutboxRow.event = (later.map OutboxRow.event).head? :=
    List.head?_map.symm
  rw [hhead] at hpresumed
  have horders := h.settling.orders
  refine Reports.mono (reports_newEvents horders.orders (horders.processes e.proc)
    (horders.calls e.proc) (h.settling.emitted e.proc) (step_cases hservice) hrows.symm hpresumed
      update hupdate) ?_
  rw [← hd]
  exact @orders_subset_versions ts ⟨c, e, d⟩

/-- A step that inserts nothing leaves the log as it is. -/
theorem logged_kept (h : Notified ts c) (hinserted : d.shared.inserted = c.shared.inserted) :
    ∀ row ∈ d.shared.inserted, RowPresumed d.shared.inserted row →
      RowReports (versions (ts ++ [⟨c, e, d⟩])) d.shared.inserted row := by
  rw [hinserted]
  intro row hrow hpresumed update hupdate
  exact (h.logged row hrow hpresumed update hupdate).mono versions_subset

theorem published_kept (h : Notified ts c)
    (hinserted : d.shared.inserted = c.shared.inserted ++ rows)
    {x : OutboxRow OutboxEvent × OrderUpdate} (hx : x ∈ c.shared.published) :
    Reports (versions (ts ++ [⟨c, e, d⟩])) (tradesOf (before d.shared.inserted x.1)) x.2 := by
  rw [hinserted, before_append (h.recorded.published x hx).1]
  exact (h.published x hx).mono versions_subset

theorem Notified.next (h : Notified ts c) (hguard : Guard c e)
    (hnext : notifyingSystem.next c e = some d) : Notified (ts ++ [⟨c, e, d⟩]) d := by
  have hrecorded := h.recorded.next hnext
  have hsettling := settling_next h.settling hguard hnext
  obtain ⟨s', l', hstep, heq⟩ := BridgedOutbox.next_cases hnext
  obtain ⟨hshared, -⟩ := Config.mk.inj heq
  generalize hproc : c.procs e.proc = l at hstep
  generalize haction : e.action = action at hstep
  cases hstep with
  | @served call call' worker action service rows hservice hrows =>
    have hcall : (c.procs e.proc).1 = call := congrArg Prod.fst hproc
    have hinserted : d.shared.inserted = c.shared.inserted ++ rows := by rw [hshared]
    refine ⟨hrecorded, hsettling, ?_, fun x hx => published_kept h hinserted ?_⟩
    · exact logged_served h hrecorded (by rw [hcall]; exact hservice) hrows.1 hinserted
        (by rw [hshared])
    · rwa [hshared] at hx
  | relayed =>
    have hinserted : d.shared.inserted = c.shared.inserted := by rw [hshared]
    refine ⟨hrecorded, hsettling, logged_kept h hinserted, fun x hx => ?_⟩
    rw [hshared] at hx
    exact published_kept h (hinserted.trans (List.append_nil _).symm) hx
  | @handled _ row context sent hrow =>
    have hinserted : d.shared.inserted = c.shared.inserted := by rw [hshared]
    refine ⟨hrecorded, hsettling, logged_kept h hinserted, fun x hx => ?_⟩
    rw [hshared] at hx
    rcases List.mem_append.mp hx with hold | hnew
    · exact published_kept h (hinserted.trans (List.append_nil _).symm) hold
    · obtain ⟨update, hupdate, rfl⟩ := List.mem_map.mp hnew
      have hsent : sent ≠ 0 := by
        rintro rfl
        cases hupdate
      have hreports := h.logged row (h.recorded.carries.arrived row hrow)
        (hguard.2 row context sent haction hsent) update (List.mem_of_mem_take hupdate)
      rw [hinserted]
      exact hreports.mono versions_subset

theorem notified_initial : Notified [] initial where
  recorded := BridgedOutbox.recorded_initial rfl
  settling := settling_initial
  logged _ h := absurd h List.not_mem_nil
  published _ h := absurd h List.not_mem_nil

/-! ### Consistent updates -/

/-- Every published update gives the values of its order after some step of the run, in
quantities that make up the amount, and what is filled does not shrink along the events. -/
structure UpdatesConsistent (ts : List NotifyingTransition) (c : NotifyingConfig) : Prop where
  described : ∀ x ∈ c.shared.published, ∃ t ∈ ts,
    ∃ order ∈ t.after.shared.service.store.db.orders, Describes order x.2.message
  increasing : c.shared.inserted.Pairwise fun row row' => ∀ update update',
    (row, update) ∈ c.shared.published → (row', update') ∈ c.shared.published →
      update.message.orderId = update'.message.orderId →
        update.message.filledQuantity.units ≤ update'.message.filledQuantity.units

theorem Notified.consistent (h : Notified ts c) : UpdatesConsistent ts c where
  described x hx := by
    obtain ⟨order, horder, hdescribes⟩ := (h.published x hx).version
    obtain ⟨t, ht, horder⟩ := List.mem_flatMap.mp horder
    exact ⟨t, ht, order, horder, hdescribes⟩
  increasing := by
    have hnonneg : ∀ trade ∈ tradesOf c.shared.inserted, 0 ≤ trade.quantity := by
      rw [tradesOf_inserted h.recorded]
      exact h.settling.orders.orders.trades
    refine (pairwise_before (List.Nodup.of_map _ h.recorded.ids)).imp
      fun {row row'} hwithin update update' hrow hrow' horder => ?_
    rw [(h.published _ hrow).filled, (h.published _ hrow').filled, horder]
    refine tradedQuantity_le ((hwithin.map _).filterMap _) fun trade htrade => ?_
    exact hnonneg trade (((before_within.map _).filterMap _).subset htrade)

/-- In every run under the condition, the updates of orders are consistent. -/
theorem updates_consistent (h : notifyingSystem.Run Guard initial es d) :
    UpdatesConsistent (notifyingSystem.transitions initial es) d :=
  (h.trace_invariant notified_initial
    fun _ _ _ _ hc hguard hnext => hc.next hguard hnext).consistent

/-! ### Two runs -/

def ether : TradingSymbol := ⟨.eth, .usdt⟩

/-- A new order at a price of 100. -/
def newLimitOrder (id userId : Uuid) (side : OrderSide) (amount : ℤ) : Order :=
  ⟨id, userId, ether, side, .limit, 10000000000, amount, 0, amount, .opened, userId⟩

def outboxRow (id : Uuid) (event : OutboxEvent) : OutboxRow OutboxEvent := ⟨id, event, .pending, 0⟩

/-- Steps of the orders service that commit no event. -/
def serving (es : List (Event Action)) : List (Event NotifyingAction) :=
  es.map fun e => ⟨e.proc, .serve e.action []⟩

/-- The steps of process `p` up to its commit, which inserts these rows. -/
def committing (p : ℕ) (es : List (Event Action)) (rows : List (OutboxRow OutboxEvent)) :
    List (Event NotifyingAction) := serving es ++ [⟨p, .serve .statement rows⟩]

/-- A worker relays some rows. -/
def relaying (p : ℕ) (rows : List (OutboxRow OutboxEvent)) : List (Event NotifyingAction) :=
  [⟨p, .relay .processBatch⟩, ⟨p, .relay (.fetchPendingBatch rows)⟩,
    ⟨p, .relay (.sendBatch ⟨rows, true⟩)⟩, ⟨p, .relay .statement⟩, ⟨p, .relay .statement⟩]

def handling (rows : List (OutboxRow OutboxEvent)) : List (Event NotifyingAction) :=
  rows.map fun row => ⟨0, .handleMessage row () 2⟩

/-- A seller offers two units. -/
def offered : Order := newLimitOrder "m" "seller" .sell 200000000

def offeredRow : OutboxRow OutboxEvent := outboxRow "m0" (orderPlacedEvent offered 0 1)

def offering : List (Event NotifyingAction) :=
  committing 0 (opening 0 (limitOrder "seller" .sell 100 2) "m" ++ statements 0 6) [offeredRow]

/-- What a buyer of the offer commits, besides an event of the seller's order. -/
def buying (amount : ℤ) : List (OutboxRow OutboxEvent) :=
  let order := newLimitOrder "a" "buyer" .buy amount
  let maker : OrderbookEntry := ⟨"m", "seller", ether, .sell, .limit, 10000000000, 200000000,
    200000000⟩
  [outboxRow "a0" (orderPlacedEvent order 0 2),
    outboxRow "a1" (tradeExecutedEvent (matchedTrade order maker amount "t") 3),
    outboxRow "a2" (orderFilledEvent (UnitOfWork.executed order amount 0 .filled))]

def offerFilledRow : OutboxRow OutboxEvent :=
  outboxRow "m1" (orderFilledEvent (UnitOfWork.executed offered 200000000 0 .filled))

/-- The whole offer is bought. -/
def bought : List (Event NotifyingAction) :=
  offering ++ committing 1 (opening 1 (limitOrder "buyer" .buy 100 2) "a" ++ statements 1 4 ++
    [⟨1, .trade "t"⟩] ++ statements 1 6) (buying 200000000 ++ [offerFilledRow])

/-- Another offer, which nobody takes. -/
def withdrawn : Order := newLimitOrder "n" "other" .sell 100000000

def withdrawnRows : List (OutboxRow OutboxEvent) :=
  [outboxRow "n0" (orderPlacedEvent withdrawn 0 4),
    outboxRow "n1" (orderCancelledEvent { withdrawn with status := .cancelled } 0 5)]

def withdrawing : List (Event NotifyingAction) :=
  committing 2 (opening 2 (limitOrder "other" .sell 100 1) "n" ++ statements 2 6)
      (withdrawnRows.take 1) ++
    committing 3 (⟨3, .cancelOrder ⟨"n", "other", "cancel"⟩⟩ :: statements 3 7)
      (withdrawnRows.drop 1)

/-- All events are relayed, and all are handled that the bridge is right about. -/
def updatedTruly : List (Event NotifyingAction) :=
  bought ++ withdrawing ++
    relaying 4 (offeredRow :: buying 200000000 ++ offerFilledRow :: withdrawnRows) ++
      handling (offeredRow :: (buying 200000000).drop 2 ++ offerFilledRow :: withdrawnRows)

/-- Half of the offer is bought, and the event of the trade is handled. -/
def partlyBought : List (Event NotifyingAction) :=
  offering ++ committing 1 (opening 1 (limitOrder "buyer" .buy 100 1) "a" ++ statements 1 4 ++
    [⟨1, .trade "t"⟩] ++ statements 1 5) (buying 100000000) ++
      relaying 4 (offeredRow :: buying 100000000) ++ handling ((buying 100000000).drop 1 |>.take 1)

/-- The condition, checked on one transition. -/
def checkGuard (t : NotifyingTransition) : Bool :=
  match t.event.action with
  | .serve action _ => meetsCondition MakerCurrent
      ⟨serviceConfig t.before, ⟨t.event.proc, action⟩, serviceConfig t.after⟩
  | .handleMessage row _ _ => decide (RowPresumed t.before.shared.inserted row)
  | .relay _ => true

theorem guard_of_checkGuard {t : NotifyingTransition} (h : checkGuard t = true) :
    Guard t.before t.event := by
  constructor
  · intro action rows haction
    rw [checkGuard, haction] at h
    exact guard_of_meetsCondition h
  · intro row context sent haction _
    rw [checkGuard, haction] at h
    exact of_decide_eq_true h

theorem updatedTruly_executes : (notifyingSystem.exec initial updatedTruly).map
    (fun c => c.shared.published.map fun x => (x.2.message.orderId, x.2.message.status)) =
      some [("m", .opened), ("a", .filled), ("m", .filled), ("n", .opened), ("n", .cancelled)] := by
  decide +kernel

theorem updates_consistent_updatedTruly : ∃ d,
    notifyingSystem.exec initial updatedTruly = some d ∧ d.shared.published.length = 5 ∧
      UpdatesConsistent (notifyingSystem.transitions initial updatedTruly) d := by
  obtain ⟨d, hexec, hpublished⟩ := Option.map_eq_some_iff.mp updatedTruly_executes
  have hlength := congrArg List.length hpublished
  rw [List.length_map] at hlength
  have hall : (notifyingSystem.transitions initial updatedTruly).all checkGuard = true := by
    decide +kernel
  exact ⟨d, hexec, hlength, updates_consistent (.of_check hexec hall fun _ => guard_of_checkGuard)⟩

theorem partlyBought_executes : (notifyingSystem.exec initial partlyBought).map
    (fun c => c.shared.published.map fun x => (x.2.message.orderId,
      x.2.message.filledQuantity.units, x.2.message.remainingQuantity.units)) =
        some [("a", 100000000, 0), ("m", 100000000, 0)] := by
  decide +kernel

/-- The seller of two units is told that one is filled and nothing remains. -/
theorem not_updates_consistent_partlyBought : ¬∀ es d,
    notifyingSystem.exec initial es = some d →
      UpdatesConsistent (notifyingSystem.transitions initial es) d := by
  intro h
  obtain ⟨d, hexec, hpublished⟩ := Option.map_eq_some_iff.mp partlyBought_executes
  obtain ⟨x, hx, hvalues⟩ : ∃ x ∈ d.shared.published, (x.2.message.orderId,
      x.2.message.filledQuantity.units, x.2.message.remainingQuantity.units) =
        ("m", 100000000, 0) :=
    List.mem_map.mp (hpublished ▸ List.mem_cons_of_mem _ (List.mem_singleton_self _))
  obtain ⟨horderId, hvalues⟩ := Prod.mk.inj hvalues
  obtain ⟨hfilled, hremaining⟩ := Prod.mk.inj hvalues
  obtain ⟨t, ht, order, horder, hdescribes⟩ := (h _ d hexec).described x hx
  have hamounts : ((notifyingSystem.transitions initial partlyBought).all fun t =>
      t.after.shared.service.store.db.orders.all fun order =>
        decide (order.id = "m" → order.amount = 200000000)) = true := by decide +kernel
  have hamount := of_decide_eq_true
    (List.all_eq_true.mp (List.all_eq_true.mp hamounts t ht) order horder)
    (hdescribes.orderId.trans horderId)
  have htotal := hdescribes.total
  rw [hfilled, hremaining, hamount] at htotal
  exact absurd htotal (by decide)

end EtherTrade.OrderNotificationLaws
