import EtherTrade.OrdersTransactions

/-!
# What a call knows under its row locks

A transaction that places an order has locked the primary key of the order and every row
it wrote, and has traded with none but these. A transaction that cancels an order has
locked a row that may be cancelled. The steps of others leave both as they are.
-/

namespace EtherTrade.OrdersTransactionInvariants

open KeyedRows AccountsSchema OrdersSchema OrderBook MatchingEngine
open InterleavedProcesses ResourceLocks OrdersTransactions

variable {db : OrdersDb} {p q : ℕ} {s s' : Shared} {w w' : UnitOfWork} {maker : OrderbookEntry}
  {orderId : Uuid}

def view (store : OrdersStore) (orderId : Uuid) : Option Order := store.db.findById orderId

theorem findById_install {rows : List Order} {events : List OutboxEvent} :
    (db.install rows events).findById orderId =
      (lookup Order.id rows orderId).or (db.findById orderId) := lookup_merge

theorem trades_install {rows : List Order} {events : List OutboxEvent} :
    (db.install rows events).trades = db.trades ++ events.filterMap OutboxEvent.trade :=
  List.filterMap_append

/-! ### Reads and writes of a transaction -/

theorem findById_id {order : Order} (h : w.findById db orderId = some order) :
    order.id = orderId := by
  rw [UnitOfWork.findById, Option.or_eq_some_iff] at h
  rcases h with h | ⟨-, h⟩
  · exact (lookup_mem h).2
  · exact (lookup_mem h).2

/-- An update shows in the row it names and in no other. -/
theorem lookup_write_updateExecution {filledAmount remainingAmount : ℤ} {status : OrderStatus}
    {k : Uuid} : lookup Order.id (w.write
        (w.updateExecution db orderId filledAmount remainingAmount status)).rows k =
      if k = orderId then w.updateExecution db orderId filledAmount remainingAmount status
      else lookup Order.id w.rows k := by
  simp only [UnitOfWork.write, lookup_merge, UnitOfWork.updateExecution]
  cases hrow : w.findById db orderId with
  | none =>
    have hmissing : lookup Order.id w.rows orderId = none := by
      cases h : lookup Order.id w.rows orderId with
      | none => rfl
      | some order => simp [UnitOfWork.findById, h] at hrow
    split
    · next hk =>
      rw [hk, hmissing]
      rfl
    · simp [lookup]
  | some order =>
    have hid := findById_id hrow
    split
    · next hk => simp [lookup, UnitOfWork.executed, hid, hk]
    · next hk =>
      have hne : orderId ≠ k := Ne.symm hk
      simp [lookup, UnitOfWork.executed, hid, hne]

/-- A trade names the taker and the maker. -/
theorem names_matchedTrade {taker : Order} {quantity : ℤ} {tradeId : Uuid} {n : ℕ} :
    (tradeExecutedPayload (matchedTrade taker maker quantity tradeId) n).Names orderId ↔
      orderId = taker.id ∨ orderId = maker.orderId := by
  simp only [tradeExecutedPayload, matchedTrade, TradeExecutedEvent.Names]
  cases taker.side <;> simp [eq_comm, or_comm]

/-! ### Trades and their events -/

def unnumbered (e : TradeExecutedEvent) : TradeExecutedEvent := { e with sequenceId := 0 }

@[simp] theorem unnumbered_names {e : TradeExecutedEvent} :
    (unnumbered e).Names orderId ↔ e.Names orderId := Iff.rfl

/-- The trades of a transaction as events without sequence numbers. -/
def reported (trades : List MatchedTrade) : List TradeExecutedEvent :=
  trades.map fun trade => tradeExecutedPayload trade 0

/-- The trades that have no event yet. -/
def pending (w : UnitOfWork) : Point → List MatchedTrade
  | .numbering rest => rest
  | .committing => []
  | _ => w.trades

/-- Every trade has an event or is pending, in order. -/
def Booked (w : UnitOfWork) (point : Point) : Prop :=
  (w.outboxList.filterMap OutboxEvent.trade).map unnumbered ++ reported (pending w point) =
    reported w.trades

theorem trade_orderFilledEvents : w.orderFilledEvents.filterMap OutboxEvent.trade = [] := by
  rw [UnitOfWork.orderFilledEvents, List.filterMap_map, List.filterMap_eq_nil_iff]
  intro order _
  rfl

/-! ### The invariant of a call -/

structure Holding (p : ℕ) (s : Shared) (w : UnitOfWork) : Prop where
  unique : KeyUnique Order.id w.rows
  locked : ∀ orderId, (lookup Order.id w.rows orderId).isSome → s.locks orderId = some p
  fresh : s.store.db.findById w.takerOrder.id = none
  own : (lookup Order.id w.rows w.takerOrder.id).isSome
  based : ∀ orderId, orderId ≠ w.takerOrder.id → (lookup Order.id w.rows orderId).isSome →
    (s.store.db.findById orderId).isSome
  named : ∀ e ∈ reported w.trades, ∀ orderId, e.Names orderId →
    (lookup Order.id w.rows orderId).isSome

/-- The row has been cancelled in a transaction that holds it. -/
structure Cancels (p : ℕ) (s : Shared) (request : CancelOrderRequest) (updated : Order) : Prop where
  locked : s.locks request.orderId = some p
  row : ∃ order, cancellableOrder s.store.db request = some order ∧
    updated = { order with status := .cancelled }

def PlacingInvariant (p : ℕ) (s : Shared) : Placing → Prop
  | .active w point => Holding p s w ∧ Booked w point
  | _ => True

def ProcessInvariant (p : ℕ) (s : Shared) : Process → Prop
  | .creating _ (.placing _ placing) => PlacingInvariant p s placing
  | .cancelling request (.recording updated _ _) => Cancels p s request updated
  | .cancelling request (.committing updated event) =>
    Cancels p s request updated ∧ event.trade = none
  | _ => True

/-- What the transaction learns besides its rows and trades does not matter. -/
theorem Holding.other {opposingOrders : List OrderbookEntry} {outboxList : List OutboxEvent}
    (h : Holding p s w) : Holding p s { w with opposingOrders, outboxList } :=
  ⟨h.unique, h.locked, h.fresh, h.own, h.based, h.named⟩

theorem Holding.store {store : OrdersStore} (h : Holding p s w) (hdb : store.db = s.store.db) :
    Holding p ⟨store, s.locks⟩ w := by
  refine ⟨h.unique, h.locked, ?_, h.own, fun orderId hne hrow => ?_, h.named⟩
  · simpa only [hdb] using h.fresh
  · simpa only [hdb] using h.based orderId hne hrow

/-- A transaction that has inserted its order holds it. -/
theorem holding_start {order : Order} (hfresh : s.store.db.findById order.id = none) :
    Holding p (takeLock p s order.id) (.start order) := by
  refine ⟨List.nodup_singleton _, fun orderId hrow => ?_, hfresh, by simp [UnitOfWork.start, lookup],
    fun orderId hne hrow => ?_, fun e he => absurd he List.not_mem_nil⟩
  · obtain ⟨row, hrow⟩ := Option.isSome_iff_exists.mp hrow
    obtain ⟨hmem, rfl⟩ := lookup_mem hrow
    obtain rfl := List.mem_singleton.mp hmem
    exact LockTable.acquire_self
  · obtain ⟨row, hrow⟩ := Option.isSome_iff_exists.mp hrow
    obtain ⟨hmem, rfl⟩ := lookup_mem hrow
    obtain rfl := List.mem_singleton.mp hmem
    exact absurd rfl hne

/-- An update of a row that is committed, or of the taker's own, is held like the others. -/
theorem Holding.write {filledAmount remainingAmount : ℤ} {status : OrderStatus}
    (h : Holding p s w) (hrow : (w.findById s.store.db orderId).isSome)
    (hbased : orderId ≠ w.takerOrder.id → (s.store.db.findById orderId).isSome)
    (hrows : w'.rows = (w.write
      (w.updateExecution s.store.db orderId filledAmount remainingAmount status)).rows)
    (htaker : w'.takerOrder = w.takerOrder)
    (hnamed : ∀ e ∈ reported w'.trades,
      e ∈ reported w.trades ∨ ∀ k, e.Names k → k = w.takerOrder.id ∨ k = orderId)
    (hstore : s'.store = s.store) (hlocks : ∀ k, s.locks k = some p → s'.locks k = some p)
    (hlock : s'.locks orderId = some p) : Holding p s' w' := by
  have hlookup : ∀ k, lookup Order.id w'.rows k =
      if k = orderId then w.updateExecution s.store.db orderId filledAmount remainingAmount status
      else lookup Order.id w.rows k := by
    intro k
    rw [hrows, lookup_write_updateExecution]
  have hwritten : (lookup Order.id w'.rows orderId).isSome := by
    rw [hlookup, if_pos rfl, UnitOfWork.updateExecution, Option.isSome_map]
    exact hrow
  have hkept : ∀ k, (lookup Order.id w.rows k).isSome → (lookup Order.id w'.rows k).isSome := by
    intro k hk
    by_cases hne : k = orderId
    · rwa [hne]
    · rwa [hlookup, if_neg hne]
  refine ⟨?_, fun k hk => ?_, ?_, ?_, fun k hne hk => ?_, fun e he k hk => ?_⟩
  · rw [hrows]
    exact keyUnique_merge h.unique (by cases UnitOfWork.updateExecution .. <;> simp [KeyUnique])
  · by_cases hne : k = orderId
    · rwa [hne]
    · rw [hlookup, if_neg hne] at hk
      exact hlocks k (h.locked k hk)
  · rw [htaker, hstore]
    exact h.fresh
  · rw [htaker]
    exact hkept _ h.own
  · rw [hstore]
    rw [htaker] at hne
    by_cases he : k = orderId
    · rw [he] at hne ⊢
      exact hbased hne
    · rw [hlookup, if_neg he] at hk
      exact h.based k hne hk
  · rcases hnamed e he with hold | hnew
    · exact hkept k (h.named e hold k hk)
    · rcases hnew k hk with rfl | rfl
      · exact hkept _ h.own
      · exact hwritten

/-! ### Steps of other processes -/

theorem holding_keeps (h : Keeps view q s s') (hw : Holding q s w) : Holding q s' w := by
  have hview : ∀ orderId, (lookup Order.id w.rows orderId).isSome →
      s'.store.db.findById orderId = s.store.db.findById orderId :=
    fun orderId hrow => h.view_eq (hw.locked orderId hrow)
  refine ⟨hw.unique, fun orderId hrow => h.locks_eq (hw.locked orderId hrow),
    (hview _ hw.own).trans hw.fresh, hw.own, fun orderId hne hrow => ?_, hw.named⟩
  rw [hview orderId hrow]
  exact hw.based orderId hne hrow

theorem cancels_keeps {request : CancelOrderRequest} {updated : Order} (h : Keeps view q s s')
    (hc : Cancels q s request updated) : Cancels q s' request updated := by
  obtain ⟨order, horder, hupdated⟩ := hc.row
  have hview : s'.store.db.findById request.orderId = s.store.db.findById request.orderId :=
    h.view_eq hc.locked
  refine ⟨h.locks_eq hc.locked, order, ?_, hupdated⟩
  rw [← horder]
  simp only [cancellableOrder, OrdersDb.findByIdAndUserId, hview]

theorem processInvariant_keeps {l : Process} (h : Keeps view q s s')
    (hi : ProcessInvariant q s l) : ProcessInvariant q s' l := by
  unfold ProcessInvariant PlacingInvariant at hi ⊢
  split
  · split
    · exact ⟨holding_keeps h hi.1, hi.2⟩
    · trivial
  · exact cancels_keeps h hi
  · exact ⟨cancels_keeps h hi.1, hi.2⟩
  · trivial

end EtherTrade.OrdersTransactionInvariants
