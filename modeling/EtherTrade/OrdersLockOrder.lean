import Mathlib.Data.Sum.Order
import EtherTrade.OrdersBookWrites

/-!
# The order in which orders lock rows

A transaction that places an order holds its own row, which nobody else sees, and the rows
of the makers that it has traded with; it visits makers of one side in the order in which
the book ranks them. Every step of a call keeps this.
-/

namespace EtherTrade.OrdersLockOrder

open DecimalNumbers KeyedRows AccountsSchema OrdersSchema OrderBook MatchingEngine SortedSets
open InterleavedProcesses ResourceLocks OrdersTransactions OrdersTransactionInvariants
open OrdersTransactionSteps OrdersBookWrites RestingOrders
open TradeSettlement (TradingSymbol)

/-! ### The order of the makers -/

/-- Asks by score and id, and bids the other way round. -/
def turn (order : Order) : (ℚ ×ₗ Uuid) ⊕ (ℚ ×ₗ Uuid)ᵒᵈ :=
  match order.side with
  | .sell => .inl (toLex (toNumber (order.price / scale), order.id))
  | .buy => .inr (OrderDual.toDual (toLex (toNumber (order.price / scale), order.id)))

/-- The orders inserted under each id, committed or not. -/
abbrev Placed := Uuid → Option Order

variable {placed placed' : Placed} {db : OrdersDb} {v : Valkey} {p q : ℕ} {s s' : Shared}
  {w : UnitOfWork} {maker entry : OrderbookEntry} {point point' : Point} {placing : Placing}
  {l l' : Process} {action : Action} {orderId next : Uuid} {order row : Order} {score : ℚ}
  {e : Event Action} {es : List (Event Action)} {pair : TradingSymbol} {side : OrderSide}

/-- The first order has its turn before the second. -/
def Ahead (placed : Placed) (orderId next : Uuid) : Prop :=
  ∃ order nextOrder, placed orderId = some order ∧ placed next = some nextOrder ∧
    turn order < turn nextOrder

/-- The row is a version of an order that was inserted. -/
def Known (placed : Placed) (row : Order) : Prop :=
  ∃ order, placed row.id = some order ∧ turn order = turn row

/-- The committed rows are versions of inserted orders. -/
def RowsKnown (placed : Placed) (db : OrdersDb) : Prop :=
  ∀ orderId row, db.findById orderId = some row → Known placed row

/-- The book lists inserted orders at their prices. -/
structure BookKnown (placed : Placed) (v : Valkey) : Prop where
  listed : ∀ pair side orderId score, (v.orderbooks pair side).score orderId = some score →
    ∃ order, placed orderId = some order ∧ order.id = orderId ∧ order.side = side ∧
      toNumber (order.price / scale) = score
  detailed : ∀ orderId entry, v.orderDetails orderId = .full entry → entry.orderId = orderId

/-! ### What a process may hold -/

/-- The makers that a transaction has yet to visit. -/
def unvisited (w : UnitOfWork) : Point → List Uuid
  | .reading orderIds => w.opposingOrders.map OrderbookEntry.orderId ++ orderIds
  | .finding maker => maker.orderId :: w.opposingOrders.map OrderbookEntry.orderId
  | .updating maker _ => maker.orderId :: w.opposingOrders.map OrderbookEntry.orderId
  | _ => w.opposingOrders.map OrderbookEntry.orderId

/-- Before the book is read. -/
def Unread : Point → Prop
  | .sequencing => True
  | .totalling _ => True
  | .ranging => True
  | _ => False

/-- A transaction holds the row of its order and rows of makers ahead of those it has yet to
visit, which come in order. -/
structure InOrder (placed : Placed) (p : ℕ) (s : Shared) (w : UnitOfWork) (point : Point) :
    Prop where
  taker : placed w.takerOrder.id = some w.takerOrder
  own : s.locks w.takerOrder.id = some p
  fresh : s.store.db.findById w.takerOrder.id = none
  rows : ∀ row ∈ w.rows, s.locks row.id = some p ∧ Known placed row
  sorted : (unvisited w point).Pairwise (Ahead placed)
  held : ∀ orderId, s.locks orderId = some p → orderId = w.takerOrder.id ∨
    ¬Unread point ∧ (s.store.db.findById orderId).isSome ∧
      ∀ next ∈ unvisited w point, Ahead placed orderId next
  unread : Unread point → w.opposingOrders = []

/-- The process holds nothing. -/
def HoldsNothing (p : ℕ) (s : Shared) : Prop := ∀ orderId, s.locks orderId ≠ some p

def PlacingInOrder (placed : Placed) (p : ℕ) (s : Shared) : Placing → Prop
  | .active w point => InOrder placed p s w point
  | _ => HoldsNothing p s

def ProcessInOrder (placed : Placed) (p : ℕ) (s : Shared) : Process → Prop
  | .creating _ (.placing _ placing) => PlacingInOrder placed p s placing
  | .cancelling _ (.recording updated _ _) => s.locks updated.id = some p ∧ Known placed updated
  | .cancelling _ (.committing updated _) => s.locks updated.id = some p ∧ Known placed updated
  | _ => HoldsNothing p s

/-! ### More orders -/

theorem Ahead.mono (hsub : ∀ orderId order, placed orderId = some order →
    placed' orderId = some order) (h : Ahead placed orderId next) : Ahead placed' orderId next := by
  obtain ⟨order, nextOrder, horder, hnext, hlt⟩ := h
  exact ⟨order, nextOrder, hsub _ _ horder, hsub _ _ hnext, hlt⟩

theorem Known.mono (hsub : ∀ orderId order, placed orderId = some order →
    placed' orderId = some order) (h : Known placed row) : Known placed' row := by
  obtain ⟨order, horder, hturn⟩ := h
  exact ⟨order, hsub _ _ horder, hturn⟩

theorem BookKnown.mono (hsub : ∀ orderId order, placed orderId = some order →
    placed' orderId = some order) (h : BookKnown placed v) : BookKnown placed' v := by
  refine ⟨fun pair side orderId score hscore => ?_, h.detailed⟩
  obtain ⟨order, horder, hrest⟩ := h.listed pair side orderId score hscore
  exact ⟨order, hsub _ _ horder, hrest⟩

theorem InOrder.mono (hsub : ∀ orderId order, placed orderId = some order →
    placed' orderId = some order) (h : InOrder placed p s w point) :
    InOrder placed' p s w point where
  taker := hsub _ _ h.taker
  own := h.own
  fresh := h.fresh
  rows row hrow := ⟨(h.rows row hrow).1, (h.rows row hrow).2.mono hsub⟩
  sorted := h.sorted.imp (Ahead.mono hsub)
  held orderId hlock := (h.held orderId hlock).imp id fun ⟨hread, hrow, hahead⟩ =>
    ⟨hread, hrow, fun next hnext => (hahead next hnext).mono hsub⟩
  unread := h.unread

/-- What each kind of holding keeps, a process keeps. -/
theorem ProcessInOrder.imp (hactive : ∀ w point, InOrder placed p s w point →
      InOrder placed' p s' w point)
    (hlock : ∀ orderId, s.locks orderId = some p → s'.locks orderId = some p)
    (hknown : ∀ row, Known placed row → Known placed' row)
    (hnothing : HoldsNothing p s → HoldsNothing p s') (h : ProcessInOrder placed p s l) :
    ProcessInOrder placed' p s' l := by
  cases l with
  | creating request progress =>
    cases progress with
    | placing recordId placing =>
      cases placing with
      | active w point => exact hactive w point h
      | _ => exact hnothing h
    | _ => exact hnothing h
  | cancelling request progress =>
    cases progress with
    | recording updated levelTotalQuantity sequenceId => exact ⟨hlock _ h.1, hknown _ h.2⟩
    | committing updated event => exact ⟨hlock _ h.1, hknown _ h.2⟩
    | _ => exact hnothing h
  | _ => exact hnothing h

theorem ProcessInOrder.mono (hsub : ∀ orderId order, placed orderId = some order →
    placed' orderId = some order) (h : ProcessInOrder placed p s l) :
    ProcessInOrder placed' p s l :=
  h.imp (fun _ _ => InOrder.mono hsub) (fun _ => id) (fun _ => Known.mono hsub) id

/-! ### The book -/

theorem Valkey.bookKnown_zadd (h : BookKnown placed v) (horder : placed entry.orderId = some order)
    (hid : order.id = entry.orderId) (hside : order.side = entry.side)
    (hprice : order.price = entry.price) : BookKnown placed (v.zaddOrder entry) := by
  refine ⟨fun pair side orderId score hscore => ?_, h.detailed⟩
  rw [Valkey.zaddOrder, orderbooks_setOrderbook] at hscore
  split at hscore
  · next hbook =>
    rw [SortedSet.score_zadd] at hscore
    split at hscore
    · next heq =>
      obtain rfl := Option.some.inj hscore
      exact ⟨order, heq ▸ horder, hid.trans heq.symm, hside.trans hbook.2.symm, by rw [hprice]⟩
    · rw [← hbook.1, ← hbook.2] at hscore
      exact h.listed pair side orderId score hscore
  · exact h.listed pair side orderId score hscore

theorem Valkey.bookKnown_zrem (h : BookKnown placed v) :
    BookKnown placed (v.zremOrder orderId pair side) := by
  refine ⟨fun pair' side' orderId' score hscore => ?_, h.detailed⟩
  rw [Valkey.zremOrder, orderbooks_setOrderbook] at hscore
  split at hscore
  · next hbook =>
    rw [SortedSet.score_zrem] at hscore
    split at hscore
    · cases hscore
    · rw [← hbook.1, ← hbook.2] at hscore
      exact h.listed pair' side' orderId' score hscore
  · exact h.listed pair' side' orderId' score hscore

/-- Writing one hash. -/
theorem Valkey.bookKnown_details (h : BookKnown placed v) {details : OrderDetails}
    (hdetails : ∀ entry, details = .full entry → entry.orderId = orderId) :
    BookKnown placed { v with
      orderDetails := Function.update v.orderDetails orderId details } := by
  refine ⟨h.listed, fun k entry hentry => ?_⟩
  by_cases hk : k = orderId
  · subst hk
    exact hdetails entry ((Function.update_self ..).symm.trans hentry)
  · exact h.detailed k entry ((Function.update_of_ne hk _ _).symm.trans hentry)

theorem Valkey.bookKnown_updateRemainingAmount (h : BookKnown placed v) {remainingAmount : ℤ} :
    BookKnown placed (v.updateRemainingAmount orderId remainingAmount) := by
  refine bookKnown_details h fun entry hentry => ?_
  cases hold : v.orderDetails orderId with
  | full old =>
    rw [hold] at hentry
    obtain rfl := OrderDetails.full.inj hentry
    exact h.detailed orderId old hold
  | _ =>
    rw [hold] at hentry
    cases hentry

theorem Valkey.bookKnown_nextSequence (h : BookKnown placed v) :
    BookKnown placed (v.nextSequence pair).1 := ⟨h.listed, h.detailed⟩

/-- The makers of a side come in the order of their turns. -/
theorem Valkey.pairwise_bestOpposingOrderIds (h : BookKnown placed v) :
    (v.bestOpposingOrderIds pair side).Pairwise (Ahead placed) := by
  have hturn {a b : Uuid} {s t : ℚ} (side' : OrderSide)
      (ha : (v.orderbooks pair side').score a = some s)
      (hb : (v.orderbooks pair side').score b = some t) :
      ∃ x y, placed a = some x ∧ placed b = some y ∧ x.side = side' ∧ y.side = side' ∧
        toLex (toNumber (x.price / scale), x.id) = toLex (s, a) ∧
          toLex (toNumber (y.price / scale), y.id) = toLex (t, b) := by
    obtain ⟨x, hx, hxid, hxside, hxscore⟩ := h.listed _ _ _ _ ha
    obtain ⟨y, hy, hyid, hyside, hyscore⟩ := h.listed _ _ _ _ hb
    exact ⟨x, y, hx, hy, hxside, hyside, by rw [hxid, hxscore], by rw [hyid, hyscore]⟩
  refine List.Pairwise.sublist (List.take_sublist _ _) ?_
  have hranked := (v.orderbooks pair side.opposing).pairwise_lt_ranked
  cases side with
  | buy =>
    refine hranked.imp fun {a b} ⟨s, t, ha, hb, hlt⟩ => ?_
    obtain ⟨x, y, hx, hy, hxside, hyside, hxkey, hykey⟩ := hturn _ ha hb
    refine ⟨x, y, hx, hy, ?_⟩
    rw [turn, turn, hxside, hyside]
    exact Sum.inl_lt_inl_iff.mpr (by rwa [hxkey, hykey])
  | sell =>
    refine List.pairwise_reverse.mpr (hranked.imp fun {a b} ⟨s, t, ha, hb, hlt⟩ => ?_)
    obtain ⟨x, y, hx, hy, hxside, hyside, hxkey, hykey⟩ := hturn _ ha hb
    refine ⟨y, x, hy, hx, ?_⟩
    rw [turn, turn, hxside, hyside]
    exact Sum.inr_lt_inr_iff.mpr (OrderDual.toDual_lt_toDual.mpr (by rwa [hxkey, hykey]))

/-! ### What a step leaves to others -/

/-- The rows that others hold stay theirs and as they were, others get no more, and no
committed row vanishes. -/
structure Frame (p : ℕ) (s s' : Shared) : Prop where
  keeps : ∀ q, q ≠ p → Keeps view q s s'
  others : ∀ q orderId, q ≠ p → s'.locks orderId = some q → s.locks orderId = some q
  committed : ∀ orderId, (s.store.db.findById orderId).isSome →
    (s'.store.db.findById orderId).isSome

theorem frame_of_orders (horders : s'.store.db.orders = s.store.db.orders)
    (hlocks : s'.locks = s.locks ∨ s'.locks = s.locks.release p) : Frame p s s' := by
  refine ⟨fun q hq => keeps_of_orders horders hlocks (Ne.symm hq), fun q orderId hq hlock => ?_,
    fun orderId hrow => by simpa only [OrdersDb.findById, horders] using hrow⟩
  rcases hlocks with hlocks | hlocks
  · rwa [hlocks] at hlock
  · rw [hlocks] at hlock
    exact (LockTable.release_eq_some.mp hlock).1

theorem frame_takeLock (havailable : s.locks.Available p orderId) :
    Frame p s (takeLock p s orderId) := by
  refine ⟨fun q hq => keeps_acquire (Ne.symm hq) havailable, fun q k hq hlock => ?_, fun _ => id⟩
  rcases LockTable.acquire_eq_some.mp hlock with ⟨-, rfl⟩ | ⟨-, hlock⟩
  · exact absurd rfl hq
  · exact hlock

theorem frame_commit {rows : List Order} {events : List OutboxEvent}
    (hrows : ∀ row ∈ rows, s.locks row.id = some p) : Frame p s (commit p s rows events) := by
  refine ⟨fun q hq => keeps_commit (Ne.symm hq) fun orderId hrow => ?_,
    fun q orderId _ hlock => (LockTable.release_eq_some.mp hlock).1, fun orderId hrow => ?_⟩
  · obtain ⟨row, hrow⟩ := Option.isSome_iff_exists.mp hrow
    obtain ⟨hmem, rfl⟩ := lookup_mem hrow
    exact hrows row hmem
  · change ((s.store.db.install rows events).findById orderId).isSome = true
    rw [findById_install, Option.isSome_or, hrow, Bool.or_true]

theorem Frame.inOrder (h : Frame p s s') (hq : q ≠ p) (hi : InOrder placed q s w point) :
    InOrder placed q s' w point where
  taker := hi.taker
  own := (h.keeps q hq).locks_eq hi.own
  fresh := ((h.keeps q hq).view_eq hi.own).trans hi.fresh
  rows row hrow := ⟨(h.keeps q hq).locks_eq (hi.rows row hrow).1, (hi.rows row hrow).2⟩
  sorted := hi.sorted
  held orderId hlock := (hi.held orderId (h.others q orderId hq hlock)).imp id
    fun ⟨hread, hrow, hahead⟩ => ⟨hread, h.committed orderId hrow, hahead⟩
  unread := hi.unread

theorem Frame.processInOrder (h : Frame p s s') (hq : q ≠ p) (hi : ProcessInOrder placed q s l) :
    ProcessInOrder placed q s' l :=
  hi.imp (fun _ _ => h.inOrder hq) (fun _ => (h.keeps q hq).locks_eq) (fun _ => id)
    fun hnothing orderId hlock => hnothing orderId (h.others q orderId hq hlock)

/-- What a step of a process does to the records, its own locks and those of others. -/
structure StepSpec (placed : Placed) (p : ℕ) (s s' : Shared) (l' : Process) : Prop where
  rows : RowsKnown placed s'.store.db
  book : BookKnown placed s'.store.valkey
  own : ProcessInOrder placed p s' l'
  frame : Frame p s s'

/-! ### Steps of a transaction -/

theorem holdsNothing_release {store : OrdersStore} : HoldsNothing p ⟨store, s.locks.release p⟩ :=
  fun _ hlock => (LockTable.release_eq_some.mp hlock).2 rfl

theorem rowsKnown_install {rows : List Order} {events : List OutboxEvent}
    (hdb : RowsKnown placed db) (hrows : ∀ row ∈ rows, Known placed row) :
    RowsKnown placed (db.install rows events) := by
  intro orderId row hrow
  rw [findById_install, Option.or_eq_some_iff] at hrow
  rcases hrow with hrow | ⟨-, hrow⟩
  · exact hrows row (lookup_mem hrow).1
  · exact hdb orderId row hrow

/-- The version that a transaction reads is known. -/
theorem InOrder.known (hi : InOrder placed p s w point) (hdb : RowsKnown placed s.store.db)
    (h : w.findById s.store.db orderId = some row) : Known placed row := by
  rw [UnitOfWork.findById, Option.or_eq_some_iff] at h
  rcases h with h | ⟨-, h⟩
  · exact (hi.rows row (lookup_mem h).1).2
  · exact hdb orderId row h

theorem mem_rows_write {written : Option Order} (h : row ∈ (w.write written).rows) :
    row ∈ w.rows ∨ written = some row := by
  rcases List.mem_append.mp h with hold | hnew
  · obtain ⟨x, hx, rfl⟩ := List.mem_map.mp hold
    cases hlookup : lookup Order.id written.toList x.id with
    | none => exact Or.inl hx
    | some y => exact Or.inr (Option.mem_toList.mp (lookup_mem hlookup).1)
  · exact Or.inr (Option.mem_toList.mp (List.mem_filter.mp hnew).1)

/-- An update is held and known like the version it overwrites. -/
theorem InOrder.rows_write (hi : InOrder placed p s w point) (hdb : RowsKnown placed s.store.db)
    {filledAmount remainingAmount : ℤ} {status : OrderStatus} {t : LockTable Uuid}
    (hlocks : ∀ k, s.locks k = some p → t k = some p)
    (hlock : (w.findById s.store.db orderId).isSome → t orderId = some p) :
    ∀ row ∈ (w.write (w.updateExecution s.store.db orderId filledAmount remainingAmount
      status)).rows, t row.id = some p ∧ Known placed row := by
  intro row hrow
  rcases mem_rows_write hrow with hrow | hrow
  · exact ⟨hlocks _ (hi.rows row hrow).1, (hi.rows row hrow).2⟩
  · obtain ⟨base, hbase, rfl⟩ := Option.map_eq_some_iff.mp hrow
    have hid : base.id = orderId := findById_id hbase
    have hknown : Known placed base := hi.known hdb hbase
    refine ⟨?_, hknown⟩
    change t base.id = some p
    rw [hid]
    exact hlock (Option.isSome_of_eq_some hbase)

/-- A step that takes no lock and visits what was unvisited. -/
theorem InOrder.move {w' : UnitOfWork} {store : OrdersStore} (hi : InOrder placed p s w point)
    (hdb : store.db.orders = s.store.db.orders) (htaker : w'.takerOrder = w.takerOrder)
    (hrows : ∀ row ∈ w'.rows, s.locks row.id = some p ∧ Known placed row)
    (hunvisited : (unvisited w' point').Sublist (unvisited w point))
    (hread : Unread point' → Unread point) (hunread : Unread point' → w'.opposingOrders = []) :
    InOrder placed p ⟨store, s.locks⟩ w' point' where
  taker := by rw [htaker]; exact hi.taker
  own := by rw [htaker]; exact hi.own
  fresh := by
    rw [htaker]
    simpa only [OrdersDb.findById, hdb] using hi.fresh
  rows := hrows
  sorted := hi.sorted.sublist hunvisited
  held orderId hlock := by
    rw [htaker]
    rcases hi.held orderId hlock with hown | ⟨hpast, hrow, hahead⟩
    · exact Or.inl hown
    · refine Or.inr ⟨mt hread hpast, ?_, fun next hnext => hahead next (hunvisited.subset hnext)⟩
      simpa only [OrdersDb.findById, hdb] using hrow
  unread := hunread

/-- The read of the book finds the transaction with nothing but its own row. -/
theorem InOrder.read (hi : InOrder placed p s w .ranging)
    (hbook : BookKnown placed s.store.valkey) :
    InOrder placed p s w (.reading
      (s.store.valkey.bestOpposingOrderIds w.takerOrder.pair w.takerOrder.side)) where
  taker := hi.taker
  own := hi.own
  fresh := hi.fresh
  rows := hi.rows
  sorted := by
    rw [unvisited, hi.unread trivial]
    exact Valkey.pairwise_bestOpposingOrderIds hbook
  held orderId hlock := (hi.held orderId hlock).imp id fun h => absurd trivial h.1
  unread := False.elim

/-- A match takes the row of the next maker, and the makers after it stay ahead. -/
theorem InOrder.fill {makerFilled : ℤ} {tradeId : Uuid} {t : LockTable Uuid}
    (hi : InOrder placed p s w (.updating maker makerFilled)) (hdb : RowsKnown placed s.store.db)
    (hlocks : ∀ k, s.locks k = some p → t k = some p)
    (hlock : (w.findById s.store.db maker.orderId).isSome → t maker.orderId = some p)
    (hothers : ∀ k, t k = some p → s.locks k = some p ∨
      k = maker.orderId ∧ (w.findById s.store.db maker.orderId).isSome)
    (hread : ¬Unread point')
    (hunvisited : ∀ u, unvisited u point' = u.opposingOrders.map OrderbookEntry.orderId) :
    InOrder placed p ⟨s.store, t⟩ (w.fill s.store.db maker makerFilled tradeId) point' := by
  obtain ⟨hfirst, hrest⟩ := List.pairwise_cons.mp hi.sorted
  have hrows : ∀ row ∈ (w.fill s.store.db maker makerFilled tradeId).rows,
      t row.id = some p ∧ Known placed row := hi.rows_write hdb hlocks hlock
  refine ⟨hi.taker, hlocks _ hi.own, hi.fresh, hrows, ?_, fun orderId hheld => ?_,
    fun h => absurd h hread⟩
  · rw [hunvisited]
    exact hrest
  · rw [hunvisited]
    have hold (hheld : s.locks orderId = some p) : orderId = w.takerOrder.id ∨ ¬Unread point' ∧
        (s.store.db.findById orderId).isSome ∧ ∀ next ∈ w.opposingOrders.map OrderbookEntry.orderId,
          Ahead placed orderId next :=
      (hi.held orderId hheld).imp id fun ⟨_, hrow, hahead⟩ =>
        ⟨hread, hrow, fun next hnext => hahead next (List.mem_cons_of_mem _ hnext)⟩
    rcases hothers orderId hheld with hheld | ⟨rfl, hrow⟩
    · exact hold hheld
    · -- the version comes from the transaction's own rows or from a committed one
      rw [UnitOfWork.findById, Option.isSome_or, Bool.or_eq_true] at hrow
      rcases hrow with hrow | hrow
      · obtain ⟨row, hrow⟩ := Option.isSome_iff_exists.mp hrow
        obtain ⟨hmem, hid⟩ := lookup_mem hrow
        exact hold (hid ▸ (hi.rows row hmem).1)
      · exact Or.inr ⟨hread, hrow, hfirst⟩

private theorem activeStatement_spec {request : ValidRequest} {recordId : Uuid}
    (hdb : RowsKnown placed s.store.db) (hbook : BookKnown placed s.store.valkey)
    (hi : InOrder placed p s w point)
    (h : activeStep p s w point .statement = some (s', placing)) :
    StepSpec placed p s s' (.creating request (.placing recordId placing)) := by
  cases point with
  | sequencing =>
    obtain ⟨rfl, rfl⟩ := Prod.mk.inj (Option.some.inj h)
    exact ⟨hdb, Valkey.bookKnown_nextSequence hbook,
      hi.move rfl rfl hi.rows (.refl _) (fun _ => trivial) fun _ => hi.unread trivial,
      frame_of_orders rfl (Or.inl rfl)⟩
  | totalling sequenceId =>
    obtain ⟨rfl, rfl⟩ := Prod.mk.inj (Option.some.inj h)
    exact ⟨hdb, hbook,
      hi.move rfl rfl hi.rows (.refl _) (fun _ => trivial) fun _ => hi.unread trivial,
      frame_of_orders rfl (Or.inl rfl)⟩
  | ranging =>
    obtain ⟨rfl, rfl⟩ := Prod.mk.inj (Option.some.inj h)
    exact ⟨hdb, hbook, hi.read hbook, frame_of_orders rfl (Or.inl rfl)⟩
  | reading orderIds =>
    cases orderIds with
    | nil =>
      obtain ⟨rfl, rfl⟩ := Prod.mk.inj (Option.some.inj h)
      refine ⟨hdb, hbook, hi.move rfl rfl hi.rows ?_ False.elim False.elim,
        frame_of_orders rfl (Or.inl rfl)⟩
      change (w.opposingOrders.map OrderbookEntry.orderId).Sublist _
      rw [unvisited, List.append_nil]
    | cons orderId orderIds =>
      obtain ⟨rfl, rfl⟩ := Prod.mk.inj (Option.some.inj h)
      refine ⟨hdb, hbook, hi.move rfl rfl hi.rows ?_ False.elim False.elim,
        frame_of_orders rfl (Or.inl rfl)⟩
      rw [unvisited, unvisited, List.map_append, List.append_assoc]
      refine List.Sublist.append (.refl _) ?_
      cases hdetails : s.store.valkey.getOrderDetails orderId with
      | none => exact List.sublist_cons_self _ _
      | some entry =>
        have hid : entry.orderId = orderId := by
          unfold Valkey.getOrderDetails at hdetails
          split at hdetails
          · next hfull =>
            obtain rfl := Option.some.inj hdetails
            exact hbook.detailed _ _ hfull
          · cases hdetails
        rw [Option.toList_some, List.map_singleton, hid]
        exact .refl _
  | visiting =>
    simp only [activeStep] at h
    split at h
    · obtain ⟨rfl, rfl⟩ := Prod.mk.inj (Option.some.inj h)
      exact ⟨hdb, hbook, hi.move rfl rfl hi.rows (.refl _) False.elim False.elim,
        frame_of_orders rfl (Or.inl rfl)⟩
    · next maker rest hnext =>
      obtain ⟨rfl, rfl⟩ := Prod.mk.inj (Option.some.inj h)
      exact ⟨hdb, hbook, hi.move rfl rfl hi.rows ((nextMaker_sublist hnext).1.map _) False.elim
        False.elim, frame_of_orders rfl (Or.inl rfl)⟩
  | finding maker =>
    obtain ⟨rfl, rfl⟩ := Prod.mk.inj (Option.some.inj h)
    exact ⟨hdb, hbook, hi.move rfl rfl hi.rows (.refl _) False.elim False.elim,
      frame_of_orders rfl (Or.inl rfl)⟩
  | updating maker makerFilled => cases h
  | removing maker =>
    obtain ⟨rfl, rfl⟩ := Prod.mk.inj (Option.some.inj h)
    exact ⟨hdb, Valkey.bookKnown_zrem hbook,
      hi.move rfl rfl hi.rows (.refl _) False.elim False.elim, frame_of_orders rfl (Or.inl rfl)⟩
  | deleting maker =>
    obtain ⟨rfl, rfl⟩ := Prod.mk.inj (Option.some.inj h)
    exact ⟨hdb, Valkey.bookKnown_details hbook fun _ hentry => OrderDetails.noConfusion hentry,
      hi.move rfl rfl hi.rows (.refl _) False.elim False.elim, frame_of_orders rfl (Or.inl rfl)⟩
  | caching maker remainingAmount =>
    obtain ⟨rfl, rfl⟩ := Prod.mk.inj (Option.some.inj h)
    exact ⟨hdb, Valkey.bookKnown_updateRemainingAmount hbook,
      hi.move rfl rfl hi.rows (.refl _) False.elim False.elim, frame_of_orders rfl (Or.inl rfl)⟩
  | updatingTaker =>
    obtain ⟨rfl, rfl⟩ := Prod.mk.inj (Option.some.inj h)
    have hrows : ∀ row ∈ (w.finish s.store.db).rows, s.locks row.id = some p ∧ Known placed row :=
      hi.rows_write hdb (fun _ => id) fun _ => hi.own
    refine ⟨hdb, hbook, ?_, frame_of_orders rfl (Or.inl rfl)⟩
    split <;> exact hi.move rfl rfl hrows (.refl _) False.elim False.elim
  | adding =>
    obtain ⟨rfl, rfl⟩ := Prod.mk.inj (Option.some.inj h)
    exact ⟨hdb, Valkey.bookKnown_zadd hbook hi.taker rfl rfl rfl,
      hi.move rfl rfl hi.rows (.refl _) False.elim False.elim, frame_of_orders rfl (Or.inl rfl)⟩
  | detailing =>
    obtain ⟨rfl, rfl⟩ := Prod.mk.inj (Option.some.inj h)
    refine ⟨hdb, Valkey.bookKnown_details hbook fun entry hentry => ?_,
      hi.move rfl rfl hi.rows (.refl _) False.elim False.elim, frame_of_orders rfl (Or.inl rfl)⟩
    rw [← OrderDetails.full.inj hentry]
  | numbering rest =>
    cases rest with
    | nil =>
      obtain ⟨rfl, rfl⟩ := Prod.mk.inj (Option.some.inj h)
      exact ⟨hdb, hbook, hi.move rfl rfl hi.rows (.refl _) False.elim False.elim,
        frame_of_orders rfl (Or.inl rfl)⟩
    | cons trade rest =>
      obtain ⟨rfl, rfl⟩ := Prod.mk.inj (Option.some.inj h)
      exact ⟨hdb, Valkey.bookKnown_nextSequence hbook,
        hi.move rfl rfl hi.rows (.refl _) False.elim False.elim, frame_of_orders rfl (Or.inl rfl)⟩
  | committing =>
    obtain ⟨rfl, rfl⟩ := Prod.mk.inj (Option.some.inj h)
    exact ⟨rowsKnown_install hdb fun row hrow => (hi.rows row hrow).2, hbook, holdsNothing_release,
      frame_commit fun row hrow => (hi.rows row hrow).1⟩

/-- The end of a transaction without its writes. -/
theorem stepSpec_rollback (hdb : RowsKnown placed s.store.db)
    (hbook : BookKnown placed s.store.valkey)
    (hl : HoldsNothing p (rollback p s) → ProcessInOrder placed p (rollback p s) l') :
    StepSpec placed p s (rollback p s) l' :=
  ⟨hdb, hbook, hl holdsNothing_release, frame_of_orders rfl (Or.inr rfl)⟩

theorem activeStep_spec {request : ValidRequest} {recordId : Uuid}
    (hdb : RowsKnown placed s.store.db) (hbook : BookKnown placed s.store.valkey)
    (hi : InOrder placed p s w point) (h : activeStep p s w point action = some (s', placing)) :
    StepSpec placed p s s' (.creating request (.placing recordId placing)) := by
  cases action with
  | statement => exact activeStatement_spec hdb hbook hi h
  | abort =>
    obtain ⟨rfl, rfl⟩ := activeStep_abort h
    exact stepSpec_rollback hdb hbook id
  | trade tradeId =>
    cases point with
    | updating maker makerFilled =>
      have hread : ¬Unread (if w.makerStatus maker = .filled then .removing maker
          else .caching maker (w.newMakerRemaining maker)) := by
        split <;> exact id
      have hunvisited : ∀ u, unvisited u (if w.makerStatus maker = .filled then .removing maker
          else .caching maker (w.newMakerRemaining maker)) =
            u.opposingOrders.map OrderbookEntry.orderId := by
        intro u
        split <;> rfl
      simp only [activeStep] at h
      split at h
      · next hnone =>
        obtain ⟨rfl, rfl⟩ := Prod.mk.inj (Option.some.inj h)
        have hmissing : ¬(w.findById s.store.db maker.orderId).isSome := by simpa using hnone
        exact ⟨hdb, hbook, hi.fill hdb (fun _ => id) (fun hrow => absurd hrow hmissing)
          (fun _ => Or.inl) hread hunvisited, frame_of_orders rfl (Or.inl rfl)⟩
      · next hsome =>
        have hrow : (w.findById s.store.db maker.orderId).isSome := by
          simpa [← Option.isSome_iff_ne_none] using hsome
        split at h
        · next havailable =>
          obtain ⟨rfl, rfl⟩ := Prod.mk.inj (Option.some.inj h)
          refine ⟨hdb, hbook, hi.fill hdb (fun _ => LockTable.acquire_own)
            (fun _ => LockTable.acquire_self) (fun k hk => ?_) hread hunvisited,
            frame_takeLock havailable⟩
          rcases LockTable.acquire_eq_some.mp hk with ⟨rfl, -⟩ | ⟨-, hk⟩
          · exact Or.inr ⟨rfl, hrow⟩
          · exact Or.inl hk
        · cases h
    | reading orderIds => cases orderIds <;> cases h
    | numbering rest => cases rest <;> cases h
    | _ => cases h
  | commitUnacknowledged =>
    cases point with
    | committing =>
      obtain ⟨rfl, rfl⟩ := Prod.mk.inj (Option.some.inj h)
      exact ⟨rowsKnown_install hdb fun row hrow => (hi.rows row hrow).2, hbook,
        holdsNothing_release, frame_commit fun row hrow => (hi.rows row hrow).1⟩
    | reading orderIds => cases orderIds <;> cases h
    | numbering rest => cases rest <;> cases h
    | _ => cases h
  | _ =>
    cases point with
    | reading orderIds => cases orderIds <;> cases h
    | numbering rest => cases rest <;> cases h
    | _ => cases h

/-! ### Steps of a call -/

/-- The id of a row that an action inserts. -/
def insertedId : Action → Option Uuid
  | .insert newId => some newId
  | _ => none

/-- The ids of all rows that a schedule inserts. -/
def insertedIds (es : List (Event Action)) : List Uuid := es.filterMap fun e => insertedId e.action

theorem insertedIds_append_singleton :
    insertedIds (es ++ [e]) = insertedIds es ++ (insertedId e.action).toList := by
  rw [insertedIds, List.filterMap_append]
  cases h : insertedId e.action <;> simp [insertedIds, h]

/-- The inserted orders may have become one more, under the id that the action inserts. -/
structure Extends (placed placed' : Placed) (action : Action) : Prop where
  kept : ∀ orderId order, placed orderId = some order → placed' orderId = some order
  new : ∀ orderId, (placed' orderId).isSome → (placed orderId).isSome ∨
    insertedId action = some orderId

theorem Extends.refl : Extends placed placed action := ⟨fun _ _ => id, fun _ => Or.inl⟩

/-- The insert of an order locks its id and makes it known. -/
theorem started_spec {request : ValidRequest} {recordId newId : Uuid}
    (hdb : RowsKnown placed s.store.db) (hbook : BookKnown placed s.store.valkey)
    (hnothing : HoldsNothing p s) (hnew : placed newId = none)
    (horder : newOrder request.val newId = some order) (havailable : s.locks.Available p newId)
    (hfresh : s.store.db.findById newId = none) :
    ∃ placed', Extends placed placed' (.insert newId) ∧
      StepSpec placed' p s (takeLock p s newId)
        (.creating request (.placing recordId (.active (.start order) .sequencing))) := by
  obtain rfl := newOrder_id horder
  have hkept : ∀ k row, placed k = some row →
      Function.update placed order.id (some order) k = some row := by
    intro k row hrow
    have hne : k ≠ order.id := by
      rintro rfl
      rw [hnew] at hrow
      cases hrow
    rwa [Function.update_of_ne hne]
  have htaker : Function.update placed order.id (some order) order.id = some order :=
    Function.update_self ..
  refine ⟨Function.update placed order.id (some order), ⟨hkept, fun k hk => ?_⟩,
    fun k row hrow => (hdb k row hrow).mono hkept, hbook.mono hkept, ?_,
    frame_takeLock havailable⟩
  · by_cases heq : k = order.id
    · exact Or.inr (congrArg some heq.symm)
    · rw [Function.update_of_ne heq] at hk
      exact Or.inl hk
  · refine ⟨htaker, LockTable.acquire_self, hfresh, fun row hrow => ?_, List.Pairwise.nil,
      fun k hk => ?_, fun _ => rfl⟩
    · obtain rfl := List.mem_singleton.mp hrow
      exact ⟨LockTable.acquire_self, row, htaker, rfl⟩
    · rcases LockTable.acquire_eq_some.mp hk with ⟨rfl, -⟩ | ⟨-, hk⟩
      · exact Or.inl rfl
      · exact absurd hk (hnothing k)

theorem placingStep_spec {request : ValidRequest} {recordId : Uuid} {placing' : Placing}
    (hdb : RowsKnown placed s.store.db) (hbook : BookKnown placed s.store.valkey)
    (hi : PlacingInOrder placed p s placing)
    (hnew : ∀ newId, insertedId action = some newId → placed newId = none)
    (h : placingStep p s request.val placing action = some (s', placing')) :
    ∃ placed', Extends placed placed' action ∧
      StepSpec placed' p s s' (.creating request (.placing recordId placing')) := by
  cases placing with
  | active w point => exact ⟨placed, .refl, activeStep_spec hdb hbook hi h⟩
  | inserting =>
    cases action with
    | insert newId =>
      simp only [placingStep] at h
      split at h
      · obtain ⟨rfl, rfl⟩ := Prod.mk.inj (Option.some.inj h)
        exact ⟨placed, .refl, stepSpec_rollback hdb hbook id⟩
      · next order horder =>
        split at h
        · next havailable =>
          split at h
          · obtain ⟨rfl, rfl⟩ := Prod.mk.inj (Option.some.inj h)
            exact ⟨placed, .refl, stepSpec_rollback hdb hbook id⟩
          · next hfresh =>
            obtain ⟨rfl, rfl⟩ := Prod.mk.inj (Option.some.inj h)
            exact started_spec hdb hbook hi (hnew newId rfl) horder havailable
              (by simpa using hfresh)
        · cases h
    | abort =>
      obtain ⟨rfl, rfl⟩ := Prod.mk.inj (Option.some.inj h)
      exact ⟨placed, .refl, stepSpec_rollback hdb hbook id⟩
    | _ => cases h
  | _ => cases action <;> cases h

/-- A process that holds nothing takes a step that changes neither rows nor the book. -/
theorem stepSpec_same (hdb : RowsKnown placed s.store.db) (hbook : BookKnown placed s.store.valkey)
    (hnothing : HoldsNothing p s) (horders : s'.store.db.orders = s.store.db.orders)
    (hvalkey : s'.store.valkey = s.store.valkey) (hlocks : s'.locks = s.locks)
    (hl : HoldsNothing p s' → ProcessInOrder placed p s' l') : StepSpec placed p s s' l' := by
  refine ⟨fun k row hrow => hdb k row ?_, hvalkey ▸ hbook, hl fun k => ?_,
    frame_of_orders horders (Or.inl hlocks)⟩
  · simpa only [OrdersDb.findById, horders] using hrow
  · rw [hlocks]
    exact hnothing k

theorem processInOrder_resolveRecord {request : ValidRequest} {record : IdempotencyRecord}
    (h : HoldsNothing p s) :
    ProcessInOrder placed p s (.creating request (resolveRecord request.val record)) := by
  unfold resolveRecord
  split
  · exact h
  · exact h
  · split <;> exact h

theorem creatingStep_spec {request : ValidRequest} {progress progress' : Creating}
    (hdb : RowsKnown placed s.store.db) (hbook : BookKnown placed s.store.valkey)
    (hi : ProcessInOrder placed p s (.creating request progress))
    (hnew : ∀ newId, insertedId action = some newId → placed newId = none)
    (h : creatingStep p s request.val progress action = some (s', progress')) :
    ∃ placed', Extends placed placed' action ∧
      StepSpec placed' p s s' (.creating request progress') := by
  cases progress with
  | placing recordId placing =>
    have hplacing (h : (placingStep p s request.val placing action).map
        (fun r => (r.1, Creating.placing recordId r.2)) = some (s', progress')) :
        ∃ placed', Extends placed placed' action ∧
          StepSpec placed' p s s' (.creating request progress') := by
      obtain ⟨⟨s₁, placing'⟩, hstep, heq⟩ := Option.map_eq_some_iff.mp h
      obtain ⟨rfl, rfl⟩ := Prod.mk.inj heq
      exact placingStep_spec hdb hbook hi hnew hstep
    cases placing with
    | committed order =>
      cases action with
      | statement =>
        obtain ⟨rfl, rfl⟩ := Prod.mk.inj (Option.some.inj h)
        exact ⟨placed, .refl, stepSpec_same hdb hbook hi rfl rfl rfl id⟩
      | abort =>
        obtain ⟨rfl, rfl⟩ := Prod.mk.inj (Option.some.inj h)
        exact ⟨placed, .refl, stepSpec_same hdb hbook hi rfl rfl rfl id⟩
      | _ => exact hplacing h
    | rolledBack =>
      cases action with
      | statement =>
        obtain ⟨rfl, rfl⟩ := Prod.mk.inj (Option.some.inj h)
        exact ⟨placed, .refl, stepSpec_same hdb hbook hi rfl rfl rfl id⟩
      | _ => exact hplacing h
    | _ => exact hplacing h
  | checking =>
    cases action with
    | statement =>
      simp only [creatingStep] at h
      split at h <;> obtain ⟨rfl, rfl⟩ := Prod.mk.inj (Option.some.inj h)
      · exact ⟨placed, .refl, stepSpec_same hdb hbook hi rfl rfl rfl id⟩
      · exact ⟨placed, .refl, stepSpec_same hdb hbook hi rfl rfl rfl processInOrder_resolveRecord⟩
    | abort =>
      obtain ⟨rfl, rfl⟩ := Prod.mk.inj (Option.some.inj h)
      exact ⟨placed, .refl, stepSpec_same hdb hbook hi rfl rfl rfl id⟩
    | _ => cases h
  | recording =>
    cases action with
    | insert recordId =>
      simp only [creatingStep] at h
      split at h <;> obtain ⟨rfl, rfl⟩ := Prod.mk.inj (Option.some.inj h) <;>
        exact ⟨placed, .refl, stepSpec_same hdb hbook hi rfl rfl rfl id⟩
    | abort =>
      obtain ⟨rfl, rfl⟩ := Prod.mk.inj (Option.some.inj h)
      exact ⟨placed, .refl, stepSpec_same hdb hbook hi rfl rfl rfl id⟩
    | _ => cases h
  | awaitingLock recordId =>
    cases action with
    | reply reply =>
      cases reply <;> obtain ⟨rfl, rfl⟩ := Prod.mk.inj (Option.some.inj h) <;>
        exact ⟨placed, .refl, stepSpec_same hdb hbook hi rfl rfl rfl id⟩
    | _ => cases h
  | _ =>
    cases action <;> cases h <;>
      exact ⟨placed, .refl, stepSpec_same hdb hbook hi rfl rfl rfl id⟩

theorem cancellingStep_spec {request : CancelOrderRequest} {progress progress' : Cancelling}
    (hdb : RowsKnown placed s.store.db) (hbook : BookKnown placed s.store.valkey)
    (hi : ProcessInOrder placed p s (.cancelling request progress))
    (h : cancellingStep p s request progress action = some (s', progress')) :
    StepSpec placed p s s' (.cancelling request progress') := by
  have habort (h : some (rollback p s, Cancelling.thrown .infrastructure) = some (s', progress')) :
      StepSpec placed p s s' (.cancelling request progress') := by
    obtain ⟨rfl, rfl⟩ := Prod.mk.inj (Option.some.inj h)
    exact stepSpec_rollback hdb hbook id
  cases progress with
  | finding =>
    cases action with
    | statement =>
      simp only [cancellingStep] at h
      split at h
      · cases h
        exact stepSpec_same hdb hbook hi rfl rfl rfl id
      · split at h
        · cases h
          exact stepSpec_same hdb hbook hi rfl rfl rfl id
        · split at h <;> cases h <;> exact stepSpec_same hdb hbook hi rfl rfl rfl id
    | abort => exact habort h
    | _ => cases h
  | removing order =>
    cases action with
    | statement =>
      cases h
      exact ⟨hdb, Valkey.bookKnown_zrem hbook, hi, frame_of_orders rfl (Or.inl rfl)⟩
    | abort => exact habort h
    | _ => cases h
  | deleting order =>
    cases action with
    | statement =>
      cases h
      exact ⟨hdb, Valkey.bookKnown_details hbook fun _ hentry => OrderDetails.noConfusion hentry,
        hi, frame_of_orders rfl (Or.inl rfl)⟩
    | abort => exact habort h
    | _ => cases h
  | sequencing order =>
    cases action with
    | statement =>
      cases h
      exact ⟨hdb, Valkey.bookKnown_nextSequence hbook, hi, frame_of_orders rfl (Or.inl rfl)⟩
    | abort => exact habort h
    | _ => cases h
  | totalling order sequenceId =>
    cases action with
    | statement =>
      cases h
      exact stepSpec_same hdb hbook hi rfl rfl rfl id
    | abort => exact habort h
    | _ => cases h
  | updating levelTotalQuantity sequenceId =>
    cases action with
    | statement =>
      simp only [cancellingStep] at h
      split at h
      · cases h
        exact stepSpec_rollback hdb hbook id
      · next order horder =>
        obtain ⟨hfind, hid, -⟩ := cancellableOrder_eq_some horder
        split at h
        · next havailable =>
          cases h
          have hknown : Known placed order := hdb _ _ hfind
          refine ⟨hdb, hbook, ⟨?_, hknown⟩, frame_takeLock havailable⟩
          change (takeLock p s request.orderId).locks order.id = some p
          rw [hid]
          exact LockTable.acquire_self
        · cases h
    | abort => exact habort h
    | _ => cases h
  | recording updated levelTotalQuantity sequenceId =>
    cases action with
    | statement =>
      cases h
      exact ⟨hdb, hbook, hi, frame_of_orders rfl (Or.inl rfl)⟩
    | abort => exact habort h
    | _ => cases h
  | committing updated event =>
    have hcommit : StepSpec placed p s (commit p s [updated] [event])
        (.cancelling request (.unlocking updated)) ∧ StepSpec placed p s
          (commit p s [updated] [event]) (.cancelling request (.thrown .infrastructure)) := by
      have hrows : RowsKnown placed (s.store.db.install [updated] [event]) :=
        rowsKnown_install hdb fun row hrow => List.mem_singleton.mp hrow ▸ hi.2
      have hframe : Frame p s (commit p s [updated] [event]) :=
        frame_commit fun row hrow => List.mem_singleton.mp hrow ▸ hi.1
      exact ⟨⟨hrows, hbook, holdsNothing_release, hframe⟩,
        ⟨hrows, hbook, holdsNothing_release, hframe⟩⟩
    cases action with
    | statement =>
      cases h
      exact hcommit.1
    | commitUnacknowledged =>
      cases h
      exact hcommit.2
    | abort => exact habort h
    | _ => cases h
  | unlocking cancelledOrder =>
    cases action with
    | statement =>
      simp only [cancellingStep] at h
      split at h <;> cases h <;> exact stepSpec_same hdb hbook hi rfl rfl rfl id
    | _ => cases h
  | awaitingUnlock cancelledOrder =>
    cases action with
    | reply reply =>
      cases h
      exact stepSpec_same hdb hbook hi rfl rfl rfl id
    | _ => cases h
  | _ => cases action <;> cases h

theorem step_spec (hdb : RowsKnown placed s.store.db) (hbook : BookKnown placed s.store.valkey)
    (hi : ProcessInOrder placed p s l)
    (hnew : ∀ newId, insertedId action = some newId → placed newId = none)
    (h : step p s l action = some (s', l')) :
    ∃ placed', Extends placed placed' action ∧ StepSpec placed' p s s' l' := by
  cases l with
  | idle =>
    cases action with
    | createOrder request =>
      simp only [step] at h
      split at h <;> cases h <;>
        exact ⟨placed, .refl, stepSpec_same hdb hbook hi rfl rfl rfl id⟩
    | cancelOrder request =>
      cases h
      exact ⟨placed, .refl, stepSpec_same hdb hbook hi rfl rfl rfl id⟩
    | passTime ms =>
      cases h
      exact ⟨placed, .refl, stepSpec_same hdb hbook hi rfl rfl rfl id⟩
    | _ => cases h
  | refused exception => cases h
  | creating request progress =>
    simp only [step, Option.map_eq_some_iff, Prod.mk.injEq] at h
    obtain ⟨⟨s₁, progress'⟩, hstep, rfl, rfl⟩ := h
    exact creatingStep_spec hdb hbook hi hnew hstep
  | cancelling request progress =>
    simp only [step, Option.map_eq_some_iff, Prod.mk.injEq] at h
    obtain ⟨⟨s₁, progress'⟩, hstep, rfl, rfl⟩ := h
    exact ⟨placed, .refl, cancellingStep_spec hdb hbook hi hstep⟩

end EtherTrade.OrdersLockOrder
