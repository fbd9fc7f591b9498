import Mathlib.Algebra.BigOperators.Group.Finset.Piecewise
import Mathlib.Algebra.Order.BigOperators.Group.Finset
import EtherTrade.OpenOrders
import EtherTrade.OrderReservationLaws

/-!
# Reserved funds across a transaction

What the open orders of a user still reserve in a currency, and what trades will take
from it. A transaction that places an order turns reservations into trades: all open
orders and all new trades together need no more than the orders before and the amount
locked for the new one.
-/

namespace EtherTrade.ReservedFunds

open DecimalNumbers KeyedRows AccountsSchema OrdersSchema OrderBook MatchingEngine
open OrdersTransactionInvariants OrderFillLaws OrderReservations OrderReservationLaws
open SequentialOrders RestingOrders MatchingLoop OpenOrders
open TradeSettlement (TradingSymbol)

variable {db db' : OrdersDb} {tradeIds : ℕ → Uuid} {m : Matching} {w : UnitOfWork} {v v' : Valkey}
  {order order' taker : Order} {maker : OrderbookEntry} {makers : List OrderbookEntry}
  {orderId : Uuid} {trade : TradeExecutedEvent} {trades : List TradeExecutedEvent}
  {owner : Uuid × Currency}

/-- The currency that an order on this side reserves. -/
def reservedCurrency (side : OrderSide) (pair : TradingSymbol) : Currency :=
  match side with
  | .buy => pair.quote
  | .sell => pair.base

/-- Whose funds an order reserves, and in which currency. -/
def payer (order : Order) : Uuid × Currency :=
  (order.userId, reservedCurrency order.side order.pair)

/-- What an order still reserves of the owner's funds. -/
def reservedBy (owner : Uuid × Currency) (order : Order) : ℤ :=
  if order.status ∈ OrderStatus.cancellable ∧ payer order = owner then
    reserve order.side order.price order.remainingAmount
  else 0

/-- What all orders still reserve of the owner's funds. -/
def reservedFunds (owner : Uuid × Currency) (db : OrdersDb) : ℤ :=
  (db.orders.map (reservedBy owner)).sum

/-- Whose locked funds pay for one side of a trade, and in which currency. -/
def paidBy (side : OrderSide) (trade : TradeExecutedEvent) : Uuid × Currency :=
  match side with
  | .buy => (trade.buyerUserId, trade.symbol.quote)
  | .sell => (trade.sellerUserId, trade.symbol.base)

/-- What the settlement of a trade takes for one side of it from the owner's locked funds. -/
def takenOn (owner : Uuid × Currency) (side : OrderSide) (trade : TradeExecutedEvent) : ℤ :=
  if paidBy side trade = owner then (takenFromLocked side trade).getD 0 else 0

/-- What the settlement of a trade takes from the owner's locked funds. -/
def takenBy (owner : Uuid × Currency) (trade : TradeExecutedEvent) : ℤ :=
  takenOn owner .buy trade + takenOn owner .sell trade

/-! ### What a transaction does to rows -/

/-- The row is a version of the other: what its client asked for is the same. -/
structure SameTerms (order order' : Order) : Prop where
  id_eq : order'.id = order.id
  userId_eq : order'.userId = order.userId
  pair_eq : order'.pair = order.pair
  side_eq : order'.side = order.side
  price_eq : order'.price = order.price
  amount_eq : order'.amount = order.amount

theorem SameTerms.refl (order : Order) : SameTerms order order := ⟨rfl, rfl, rfl, rfl, rfl, rfl⟩

theorem SameTerms.filledBy (h : SameTerms order order') {quantity : ℤ} :
    SameTerms order (filledBy order' quantity) :=
  ⟨h.id_eq, h.userId_eq, h.pair_eq, h.side_eq, h.price_eq, h.amount_eq⟩

/-- Trades of different orders leave every row that they do not name, and of the others they
make new versions of open ones. -/
structure Advances (find find' : Uuid → Option Order) (taker : Order)
    (trades : List TradeExecutedEvent) : Prop where
  distinct : ∀ trade ∈ trades, trade.buyOrderId ≠ trade.sellOrderId
  others : ∀ orderId, orderId ≠ taker.id →
    find' orderId = find orderId ∧ (∀ trade ∈ trades, ¬trade.Names orderId) ∨
      ∃ order order', find orderId = some order ∧ order.status ∈ OrderStatus.cancellable ∧
        find' orderId = some order' ∧ SameTerms order order'

/-- What a transaction has done so far. -/
def Advanced (db : OrdersDb) (w : UnitOfWork) : Prop :=
  Advances db.findById (w.findById db) w.takerOrder (reported w.trades)

theorem Advanced.fillMaker (h : Advanced db m.1)
    (hmaker : workingBook db m.1 maker.orderId = some maker) :
    Advanced db (fillMaker db tradeIds maker m).1 := by
  obtain ⟨order, hrow, hstatus, hentry, hne⟩ := exists_row_of_workingBook hmaker
  have hrows (k : Uuid) : (SequentialOrders.fillMaker db tradeIds maker m).1.findById db k = _ :=
    findById_fillMaker hrow hentry k
  refine ⟨fun trade htrade => ?_, fun k hk => ?_⟩
  · rw [reported_fillMaker, List.mem_append, List.mem_singleton] at htrade
    rcases htrade with hold | rfl
    · exact h.distinct trade hold
    · simp only [tradeExecutedPayload, matchedTrade]
      split
      · exact hne.symm
      · exact hne
  · rw [hrows]
    split
    · next heq =>
      subst heq
      right
      rcases h.others _ hk with ⟨hsame, -⟩ | ⟨base, base', hbase, hopen, hversion, hterms⟩
      · exact ⟨order, _, hsame ▸ hrow, hstatus, rfl, (SameTerms.refl order).filledBy⟩
      · rw [hrow] at hversion
        obtain rfl := Option.some.inj hversion
        exact ⟨base, _, hbase, hopen, rfl, hterms.filledBy⟩
    · next hother =>
      rcases h.others k hk with ⟨hsame, hunnamed⟩ | hversion
      · refine Or.inl ⟨hsame, fun trade htrade hnames => ?_⟩
        rw [reported_fillMaker, List.mem_append, List.mem_singleton] at htrade
        rcases htrade with hold | rfl
        · exact hunnamed trade hold hnames
        · exact (names_matchedTrade.mp hnames).elim hk hother
      · exact Or.inr hversion

theorem Advanced.fillAll (h : Advanced db m.1) (hids : (makers.map OrderbookEntry.orderId).Nodup)
    (hcurrent : Current (workingBook db m.1) m.1.takerOrder.side makers) :
    Advanced db (fillAll db tradeIds makers m).1 :=
  fillAll_preserves (P := fun m => Advanced db m.1) h hids hcurrent fun _ _ _ h hbook _ =>
    h.fillMaker hbook

theorem advanced_opened : Advanced db (opened order v).1 := by
  refine ⟨fun trade htrade => absurd htrade List.not_mem_nil, fun k hk => Or.inl ⟨?_, ?_⟩⟩
  · have hnone : lookup Order.id [order] k = none := by
      have hne : order.id ≠ k := Ne.symm hk
      simp [lookup, hne]
    change (lookup Order.id [order] k).or (db.findById k) = db.findById k
    rw [hnone, Option.none_or]
  · exact fun trade htrade => absurd htrade List.not_mem_nil

/-- The last update of the taker makes a version of it. -/
theorem Advanced.finish (h : Advanced db w)
    (hown : lookup Order.id w.rows w.takerOrder.id = some w.takerOrder) :
    Advances db.findById ((w.finish db).findById db) w.takerOrder (reported w.trades) ∧
      ∃ row, (w.finish db).findById db w.takerOrder.id = some row ∧ SameTerms w.takerOrder row := by
  have hrows (k : Uuid) := @findById_finish db _ hown k
  refine ⟨⟨h.distinct, fun k hk => ?_⟩, lastUpdate w, ?_, ⟨rfl, rfl, rfl, rfl, rfl, rfl⟩⟩
  · rw [hrows, if_neg hk]
    exact h.others k hk
  · rw [hrows, if_pos rfl]

/-- The matching of a transaction. -/
theorem Advanced.executeMatch (h : Advanced db m.1) (hw : Working db m) :
    Advances db.findById ((executeMatch db tradeIds m).1.findById db) m.1.takerOrder
        (reported (executeMatch db tradeIds m).1.trades) ∧
      ∃ row, (executeMatch db tradeIds m).1.findById db m.1.takerOrder.id = some row ∧
        SameTerms m.1.takerOrder row := by
  have hloop : (SequentialOrders.executeMatch db tradeIds m).1 =
      (MatchingLoop.fillAll db tradeIds (makersFor m.2 m.1.takerOrder) m).1.finish db := by
    rw [SequentialOrders.executeMatch, matchOrders_eq_fillAll]
    rfl
  have hadvanced : Advanced db (MatchingLoop.fillAll db tradeIds (makersFor m.2 m.1.takerOrder) m).1 :=
    h.fillAll (nodup_makersFor hw.book.namesKept _) (current_makersFor hw.book)
  have hfinished := hadvanced.finish (@Working.fillMakers db tradeIds m hw).own
  rw [fillAll_takerOrder] at hfinished
  rw [hloop, UnitOfWork.finish_trades]
  exact hfinished

/-- The numbers of the events do not matter. -/
theorem Advances.of_unnumbered {find find' : Uuid → Option Order}
    (h : Advances find find' taker (trades.map unnumbered)) : Advances find find' taker trades := by
  refine ⟨fun trade htrade => h.distinct (unnumbered trade) (List.mem_map_of_mem htrade), fun k hk => ?_⟩
  rcases h.others k hk with ⟨hsame, hunnamed⟩ | hversion
  · exact Or.inl ⟨hsame, fun trade htrade => hunnamed (unnumbered trade) (List.mem_map_of_mem htrade)⟩
  · exact Or.inr hversion

/-- The committed orders and trades, before and after a new order is committed. -/
structure Placement (db db' : OrdersDb) (taker : Order) (trades : List TradeExecutedEvent) :
    Prop where
  fresh : db.findById taker.id = none
  trades_eq : db'.trades = db.trades ++ trades
  advances : Advances db.findById db'.findById taker trades
  row : ∃ row, db'.findById taker.id = some row ∧ SameTerms taker row

/-- What the commit of a new order does to rows and trades. -/
theorem Agreed.placement (h : Agreed db v) (hnew : NewRow db order) :
    Placement db
      (db.install (placeOrder db tradeIds order v).1.rows
        (placeOrder db tradeIds order v).1.outboxList) order
      ((placeOrder db tradeIds order v).1.outboxList.filterMap OutboxEvent.trade) := by
  obtain ⟨hadvanced, row, hrow, hterms⟩ :=
    @Advanced.executeMatch _ tradeIds _ (@advanced_opened db v order) (h.working_opened hnew)
  obtain ⟨-, hreported⟩ := @Agreed.placeOrder _ tradeIds _ _ h hnew
  obtain ⟨events, valkey, hplace, -⟩ := @placeOrder_eq db tradeIds v order
  have hfind : (db.install (placeOrder db tradeIds order v).1.rows
      (placeOrder db tradeIds order v).1.outboxList).findById =
        (SequentialOrders.executeMatch db tradeIds (opened order v)).1.findById db := by
    funext k
    rw [hplace]
    exact findById_install
  have htrades : (placeOrder db tradeIds order v).1.trades =
      (SequentialOrders.executeMatch db tradeIds (opened order v)).1.trades := by
    rw [hplace]
    rfl
  refine ⟨hnew.fresh, trades_install, ?_, ?_⟩
  · rw [hfind]
    apply Advances.of_unnumbered
    rw [hreported, htrades]
    exact hadvanced
  · rw [hfind]
    exact ⟨row, hrow, hterms⟩

/-! ### One order and its trades -/

/-- What an order still reserves, by its id. -/
def reservedAt (owner : Uuid × Currency) (db : OrdersDb) (orderId : Uuid) : ℤ :=
  ((db.findById orderId).map (reservedBy owner)).getD 0

/-- What a trade takes for the order with an id. -/
def takenAt (owner : Uuid × Currency) (orderId : Uuid) (trade : TradeExecutedEvent) : ℤ :=
  (if trade.buyOrderId = orderId then takenOn owner .buy trade else 0) +
    if trade.sellOrderId = orderId then takenOn owner .sell trade else 0

theorem takenOn_of_fills (h : Fills order trade) :
    takenOn owner order.side trade = if payer order = owner then share order.side trade else 0 := by
  have htaken : takenFromLocked order.side trade = some (share order.side trade) :=
    takenFromLocked_eq h.price_nonneg h.quantity_pos.le
  have hpaid : paidBy order.side trade = payer order := by
    rw [payer]
    cases hside : order.side with
    | buy => simp only [paidBy, reservedCurrency, (h.buy hside).2.1, h.symbol]
    | sell => simp only [paidBy, reservedCurrency, (h.sell hside).2.1, h.symbol]
  rw [takenOn, hpaid, htaken, Option.getD_some]

/-- A trade of two orders takes for each of them the share of its side. -/
theorem takenAt_of_fills (hid : order.id = orderId) (hfills : trade.Names orderId → Fills order trade)
    (hdistinct : trade.buyOrderId ≠ trade.sellOrderId) :
    takenAt owner orderId trade = if trade.Names orderId then
      (if payer order = owner then share order.side trade else 0) else 0 := by
  subst hid
  rw [takenAt]
  split
  · next hbuy =>
    have hnames : trade.Names order.id := Or.inl hbuy
    have hsell : trade.sellOrderId ≠ order.id := fun heq => hdistinct (hbuy.trans heq.symm)
    have hfilled := hfills hnames
    have hside : order.side = .buy := by
      cases hside : order.side with
      | buy => rfl
      | sell => exact absurd (hfilled.sell hside).1 hsell
    rw [if_neg hsell, if_pos hnames, ← takenOn_of_fills hfilled, hside, add_zero]
  · next hbuy =>
    split
    · next hsell =>
      have hnames : trade.Names order.id := Or.inr hsell
      have hfilled := hfills hnames
      have hside : order.side = .sell := by
        cases hside : order.side with
        | buy => exact absurd (hfilled.buy hside).1 hbuy
        | sell => rfl
      rw [if_pos hnames, ← takenOn_of_fills hfilled, hside, zero_add]
    · next hsell =>
      have hnot : ¬trade.Names order.id := not_or.mpr ⟨hbuy, hsell⟩
      rw [if_neg hnot, add_zero]

/-- The trades that name an order are fills of it. -/
theorem sum_ite_eq_sum_filter {α : Type*} (p : α → Prop) [DecidablePred p] (f : α → ℤ) (l : List α) :
    (l.map fun x => if p x then f x else 0).sum = ((l.filter p).map f).sum := by
  induction l with
  | nil => rfl
  | cons x l ih =>
    rw [List.map_cons, List.sum_cons, ih]
    by_cases hp : p x <;> simp [hp]

/-- A version of an order and the trades that led to it need no more than the order with all
that was left before them. -/
theorem version_le {remaining traded : ℤ} (hid : order.id = orderId) (hsound : Sound order traded)
    (hremaining : order.remainingAmount = remaining - tradedQuantity trades orderId)
    (hfills : ∀ trade ∈ trades, trade.Names orderId → Fills order trade)
    (hdistinct : ∀ trade ∈ trades, trade.buyOrderId ≠ trade.sellOrderId) :
    reservedBy owner order + (trades.map (takenAt owner orderId)).sum ≤
      if payer order = owner then reserve order.side order.price remaining else 0 := by
  have htaken : (trades.map (takenAt owner orderId)).sum =
      ((trades.filter fun trade => trade.Names orderId).map fun trade =>
        if payer order = owner then share order.side trade else 0).sum := by
    rw [← sum_ite_eq_sum_filter]
    exact congrArg List.sum (List.map_congr_left fun trade htrade =>
      takenAt_of_fills hid (hfills trade htrade) (hdistinct trade htrade))
  have hquantity : tradedQuantity trades orderId =
      filledQuantity (trades.filter fun trade => trade.Names orderId) := sum_ite_eq_sum_filter ..
  rw [htaken, reservedBy]
  by_cases howner : payer order = owner
  · have hle := @shares_add_reserve_le order (trades.filter fun trade => trade.Names orderId)
      (fun e he => hfills e (List.mem_filter.mp he).1 (by simpa using (List.mem_filter.mp he).2))
      remaining
    rw [← hquantity, ← hremaining] at hle
    have hnonneg : 0 ≤ reserve order.side order.price order.remainingAmount :=
      reserve_nonneg hsound.price_nonneg hsound.remaining_nonneg
    have hshares : ((trades.filter fun trade => trade.Names orderId).map fun trade =>
        share order.side trade).sum = ((trades.filter fun trade => trade.Names orderId).map
          (share order.side)).sum := rfl
    simp only [howner, and_true, if_true, hshares]
    split <;> omega
  · simp [howner]

/-! ### All orders -/

/-- What a new order reserves. -/
def reservation (owner : Uuid × Currency) (order : Order) : ℤ :=
  if payer order = owner then reserve order.side order.price order.amount else 0

theorem reservedAt_eq (h : db.findById orderId = some order) :
    reservedAt owner db orderId = reservedBy owner order := by
  rw [reservedAt, h, Option.map_some, Option.getD_some]

theorem reservedFunds_eq_sum {keys : Finset Uuid} (hunique : KeyUnique Order.id db.orders)
    (hkeys : ∀ order ∈ db.orders, order.id ∈ keys) :
    reservedFunds owner db = ∑ orderId ∈ keys, reservedAt owner db orderId :=
  sum_lookup _ hunique hkeys

/-- What an order reserves after the commit, and what the new trades take for it, was
reserved for it before, or is reserved for the new order. -/
theorem Placement.reservedAt_add_le (h : Placement db db' taker trades) (hbefore : Agreed db v)
    (hafter : Agreed db' v') (orderId : Uuid) :
    reservedAt owner db' orderId + (trades.map (takenAt owner orderId)).sum ≤
      reservedAt owner db orderId + if orderId = taker.id then reservation owner taker else 0 := by
  have hfills (order : Order) (hrow : db'.findById orderId = some order) :
      ∀ trade ∈ trades, trade.Names orderId → Fills order trade := by
    intro trade htrade hnames
    obtain ⟨named, hnamed, hfilled⟩ := hafter.fills trade
      (h.trades_eq ▸ List.mem_append_right _ htrade) orderId hnames
    rw [hrow] at hnamed
    exact Option.some.inj hnamed ▸ hfilled
  have htraded : tradedQuantity db'.trades orderId =
      tradedQuantity db.trades orderId + tradedQuantity trades orderId := by
    rw [h.trades_eq, tradedQuantity_append]
  by_cases htaker : orderId = taker.id
  · obtain ⟨row, hrow, hterms⟩ := h.row
    rw [← htaker] at hrow
    have hsound := hafter.rows orderId row hrow
    have hnone : tradedQuantity db.trades orderId = 0 :=
      hbefore.fills.traded_eq_zero (htaker ▸ h.fresh)
    have hremaining : row.remainingAmount = taker.amount - tradedQuantity trades orderId := by
      have htotal := hsound.total
      have hfilled := hsound.filled_eq
      have hamount := hterms.amount_eq
      omega
    have hle := @version_le _ _ _ owner _ _ (lookup_mem hrow).2 hsound hremaining (hfills row hrow)
      h.advances.distinct
    have hempty : reservedAt owner db orderId = 0 := by
      rw [reservedAt, htaker, h.fresh, Option.map_none, Option.getD_none]
    have hpayer : payer row = payer taker := by
      rw [payer, payer, hterms.userId_eq, hterms.side_eq, hterms.pair_eq]
    rw [reservedAt_eq hrow, hempty, if_pos htaker, zero_add, reservation, ← hpayer, ← hterms.side_eq,
      ← hterms.price_eq]
    exact hle
  · rw [if_neg htaker, add_zero]
    rcases h.advances.others orderId htaker with
      ⟨hsame, hunnamed⟩ | ⟨order, row, horder, hopen, hrow, hterms⟩
    · have htaken : (trades.map (takenAt owner orderId)).sum = 0 := by
        refine List.sum_eq_zero fun n hn => ?_
        obtain ⟨trade, htrade, rfl⟩ := List.mem_map.mp hn
        obtain ⟨hbuy, hsell⟩ := not_or.mp (hunnamed trade htrade)
        rw [takenAt, if_neg hbuy, if_neg hsell, add_zero]
      rw [htaken, add_zero, reservedAt, hsame, reservedAt]
    · have hsound := hafter.rows orderId row hrow
      have hremaining : row.remainingAmount =
          order.remainingAmount - tradedQuantity trades orderId := by
        have hold := hbefore.rows orderId order horder
        have htotal := hsound.total
        have htotal' := hold.total
        have hfilled := hsound.filled_eq
        have hfilled' := hold.filled_eq
        have hamount := hterms.amount_eq
        omega
      have hle := @version_le _ _ _ owner _ _ (lookup_mem hrow).2 hsound hremaining (hfills row hrow)
        h.advances.distinct
      have hpayer : payer row = payer order := by
        rw [payer, payer, hterms.userId_eq, hterms.side_eq, hterms.pair_eq]
      rw [hpayer, hterms.side_eq, hterms.price_eq] at hle
      have hold : reservedBy owner order = if payer order = owner then
          reserve order.side order.price order.remainingAmount else 0 := by
        simp only [reservedBy, hopen, true_and]
      rw [reservedAt_eq hrow, reservedAt_eq horder, hold]
      exact hle

/-- Over all ids, what trades take for orders is what they take. -/
theorem sum_takenAt {keys : Finset Uuid}
    (hkeys : ∀ trade ∈ trades, trade.buyOrderId ∈ keys ∧ trade.sellOrderId ∈ keys) :
    ∑ orderId ∈ keys, (trades.map (takenAt owner orderId)).sum =
      (trades.map (takenBy owner)).sum := by
  induction trades with
  | nil => simp
  | cons trade trades ih =>
    have ih := ih fun e he => hkeys e (List.mem_cons_of_mem _ he)
    obtain ⟨hbuy, hsell⟩ := hkeys trade List.mem_cons_self
    have htrade : ∑ orderId ∈ keys, takenAt owner orderId trade = takenBy owner trade := by
      simp only [takenAt, Finset.sum_add_distrib, Finset.sum_ite_eq, hbuy, hsell, if_true, takenBy]
    simp only [List.map_cons, List.sum_cons, Finset.sum_add_distrib, ih, htrade]

/-- All orders after the commit and all new trades need no more than the orders before it
and the new one. -/
theorem Placement.reservedFunds_add_le (h : Placement db db' taker trades) (hbefore : Agreed db v)
    (hafter : Agreed db' v') : reservedFunds owner db' + (trades.map (takenBy owner)).sum ≤
      reservedFunds owner db + reservation owner taker := by
  let keys := (db.orders.map Order.id ++ db'.orders.map Order.id).toFinset
  have hold : reservedFunds owner db = ∑ orderId ∈ keys, reservedAt owner db orderId :=
    reservedFunds_eq_sum hbefore.unique fun order horder => List.mem_toFinset.mpr
      (List.mem_append_left _ (List.mem_map_of_mem horder))
  have hnew : reservedFunds owner db' = ∑ orderId ∈ keys, reservedAt owner db' orderId :=
    reservedFunds_eq_sum hafter.unique fun order horder => List.mem_toFinset.mpr
      (List.mem_append_right _ (List.mem_map_of_mem horder))
  have hmem {orderId : Uuid} {order : Order} (hrow : db'.findById orderId = some order) :
      orderId ∈ keys := by
    obtain ⟨horder, rfl⟩ := lookup_mem hrow
    exact List.mem_toFinset.mpr (List.mem_append_right _ (List.mem_map_of_mem horder))
  have hkeys : ∀ trade ∈ trades, trade.buyOrderId ∈ keys ∧ trade.sellOrderId ∈ keys := by
    intro trade htrade
    have hcommitted : trade ∈ db'.trades := h.trades_eq ▸ List.mem_append_right _ htrade
    obtain ⟨_, hbuy, -⟩ := hafter.fills trade hcommitted _ (Or.inl rfl)
    obtain ⟨_, hsell, -⟩ := hafter.fills trade hcommitted _ (Or.inr rfl)
    exact ⟨hmem hbuy, hmem hsell⟩
  have htaker : taker.id ∈ keys := by
    obtain ⟨row, hrow, -⟩ := h.row
    exact hmem hrow
  have hsum := Finset.sum_le_sum fun orderId (_ : orderId ∈ keys) =>
    @Placement.reservedAt_add_le _ _ _ _ _ _ owner h hbefore hafter orderId
  rw [Finset.sum_add_distrib, Finset.sum_add_distrib, Finset.sum_ite_eq', if_pos htaker,
    sum_takenAt hkeys] at hsum
  rw [hold, hnew]
  exact hsum

/-- A cancelled order gives up what it reserved. -/
theorem reservedFunds_cancelled {event : OutboxEvent} (hbefore : KeyUnique Order.id db.orders)
    (hafter : KeyUnique Order.id
      (db.install [{ order with status := .cancelled }] [event]).orders)
    (hrow : db.findById order.id = some order) :
    reservedFunds owner (db.install [{ order with status := .cancelled }] [event]) +
      reservedBy owner order = reservedFunds owner db := by
  let db' := db.install [{ order with status := .cancelled }] [event]
  have hfind (k : Uuid) : db'.findById k =
      if k = order.id then some { order with status := .cancelled } else db.findById k :=
    findById_cancelled k
  let keys := (db.orders.map Order.id).toFinset
  have hmem {k : Uuid} {row : Order} (h : db.findById k = some row) : k ∈ keys := by
    obtain ⟨hold, rfl⟩ := lookup_mem h
    exact List.mem_toFinset.mpr (List.mem_map_of_mem hold)
  have hold : reservedFunds owner db = ∑ orderId ∈ keys, reservedAt owner db orderId :=
    reservedFunds_eq_sum hbefore fun row hold => List.mem_toFinset.mpr (List.mem_map_of_mem hold)
  have hnew : reservedFunds owner db' = ∑ orderId ∈ keys, reservedAt owner db' orderId := by
    refine reservedFunds_eq_sum hafter fun row hnew => ?_
    have hfound : db'.findById row.id = some row := (lookup_eq_some hafter).mpr ⟨hnew, rfl⟩
    rw [hfind] at hfound
    split at hfound
    · next heq => exact heq ▸ hmem hrow
    · exact hmem hfound
  have hkey (k : Uuid) : reservedAt owner db' k +
      (if k = order.id then reservedBy owner order else 0) = reservedAt owner db k := by
    rw [reservedAt, hfind]
    split
    · next heq =>
      have hnone : reservedBy owner { order with status := .cancelled } = 0 := by
        simp [reservedBy, OrderStatus.cancellable]
      rw [Option.map_some, Option.getD_some, hnone, zero_add, heq, reservedAt_eq hrow]
    · rw [add_zero, reservedAt]
  rw [hold, hnew, ← Finset.sum_congr rfl fun k (_ : k ∈ keys) => hkey k, Finset.sum_add_distrib,
    Finset.sum_ite_eq', if_pos (hmem hrow)]

end EtherTrade.ReservedFunds
