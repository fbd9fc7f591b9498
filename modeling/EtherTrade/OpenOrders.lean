import EtherTrade.MatchingLoop
import EtherTrade.OrderFillLaws
import EtherTrade.OrderReservations

/-!
# The book against the rows of open orders

What holds of the orders, their trades and the book while one transaction works on them
alone: the book has the entries of the rows whose status keeps them open, each row
accounts for its amount, and each trade is a fill of the two orders it names.
-/

namespace EtherTrade.OpenOrders

open KeyedRows AccountsSchema OrdersSchema OrderBook MatchingEngine OrdersTransactions
open OrdersTransactionInvariants OrderFillLaws OrderReservations SequentialOrders RestingOrders
open MatchingLoop

variable {db : OrdersDb} {tradeIds : ℕ → Uuid} {m : Matching} {w : UnitOfWork} {v : Valkey}
  {order : Order} {maker e : OrderbookEntry} {makers : List OrderbookEntry} {orderId : Uuid}
  {trade : TradeExecutedEvent} {traded quantity : ℤ}

/-- The entry of an order whose status keeps it in the book. -/
def openEntry (order : Order) : Option OrderbookEntry :=
  if order.status ∈ OrderStatus.cancellable then some (entryOf order) else none

/-- The book of the open orders among some rows. -/
def openBook (find : Uuid → Option Order) : Book := fun orderId => (find orderId).bind openEntry

/-- The row accounts for its amount, of which `traded` is filled, and its status says how
much that is. -/
structure Sound (order : Order) (traded : ℤ) : Prop where
  price_nonneg : 0 ≤ order.price
  total : order.filledAmount + order.remainingAmount = order.amount
  filled_nonneg : 0 ≤ order.filledAmount
  remaining_nonneg : 0 ≤ order.remainingAmount
  filled_eq : order.filledAmount = traded
  filled_iff : order.status = .filled ↔ order.remainingAmount = 0
  opened_iff : order.status ≠ .cancelled → (order.status = .opened ↔ order.filledAmount = 0)

theorem openEntry_eq_some : openEntry order = some e ↔
    order.status ∈ OrderStatus.cancellable ∧ entryOf order = e := by
  unfold openEntry
  split <;> simp [*]

theorem openBook_eq_some {find : Uuid → Option Order} : openBook find orderId = some e ↔
    ∃ order, find orderId = some order ∧ order.status ∈ OrderStatus.cancellable ∧
      entryOf order = e := by
  simp only [openBook, Option.bind_eq_some_iff, openEntry_eq_some]

/-- An open order has something left. -/
theorem Sound.remaining_pos (h : Sound order traded) (hopen : order.status ∈ OrderStatus.cancellable) :
    0 < order.remainingAmount := by
  have hne : order.remainingAmount ≠ 0 := fun hzero => by
    rw [h.filled_iff.mpr hzero] at hopen
    simp [OrderStatus.cancellable] at hopen
  have hnonneg := h.remaining_nonneg
  omega

/-- The row after a quantity of it is traded. -/
def filledBy (order : Order) (quantity : ℤ) : Order :=
  UnitOfWork.executed order (order.filledAmount + quantity) (order.remainingAmount - quantity)
    (if order.remainingAmount - quantity = 0 then .filled else .partiallyFilled)

theorem Sound.filledBy (h : Sound order traded) (hquantity : 0 < quantity)
    (hle : quantity ≤ order.remainingAmount) :
    Sound (filledBy order quantity) (traded + quantity) := by
  have htotal := h.total
  have hfilled := h.filled_eq
  have hnonneg := h.filled_nonneg
  have hne : order.filledAmount + quantity ≠ 0 := by omega
  refine ⟨h.price_nonneg, ?_, ?_, ?_, ?_, ?_, fun _ => ?_⟩ <;>
    simp only [OpenOrders.filledBy, UnitOfWork.executed]
  · omega
  · omega
  · omega
  · omega
  · split <;> simp [*]
  · split <;> simp [hne]

/-! ### A transaction under way -/

/-- The book while a transaction has yet to give the taker its last update. -/
def workingBook (db : OrdersDb) (w : UnitOfWork) : Book :=
  openBook fun orderId => if orderId = w.takerOrder.id then none else w.findById db orderId

/-- The trades of an order, committed and of the transaction. -/
def tradedSoFar (db : OrdersDb) (w : UnitOfWork) (orderId : Uuid) : ℤ :=
  tradedQuantity db.trades orderId + tradedQuantity (reported w.trades) orderId

/-- What a transaction has read, written and traded agrees with the book. -/
structure Working (db : OrdersDb) (m : Matching) : Prop where
  unique : KeyUnique Order.id m.1.rows
  fresh : db.findById m.1.takerOrder.id = none
  own : lookup Order.id m.1.rows m.1.takerOrder.id = some m.1.takerOrder
  book : Holds m.2 (workingBook db m.1)
  rows : ∀ orderId order, orderId ≠ m.1.takerOrder.id →
    m.1.findById db orderId = some order → Sound order (tradedSoFar db m.1 orderId)
  price_nonneg : 0 ≤ m.1.takerOrder.price
  total : m.1.currentTakerFilled + m.1.currentTakerRemaining = m.1.takerOrder.amount
  filled_nonneg : 0 ≤ m.1.currentTakerFilled
  remaining_nonneg : 0 ≤ m.1.currentTakerRemaining
  filled_eq : tradedQuantity (reported m.1.trades) m.1.takerOrder.id = m.1.currentTakerFilled
  fills : ∀ trade ∈ db.trades ++ reported m.1.trades, ∀ orderId, trade.Names orderId →
    ∃ order, m.1.findById db orderId = some order ∧ Fills order trade

theorem findById_fill {makerFilled : ℤ} {tradeId : Uuid} :
    (w.fill db maker makerFilled tradeId).findById db orderId =
      if orderId = maker.orderId then
        w.updateExecution db maker.orderId makerFilled (w.newMakerRemaining maker)
          (w.makerStatus maker)
      else w.findById db orderId := by
  rw [UnitOfWork.findById, UnitOfWork.fill_rows, lookup_write_updateExecution]
  split
  · next hid =>
    subst hid
    rw [UnitOfWork.updateExecution, UnitOfWork.findById]
    cases lookup Order.id w.rows maker.orderId with
    | some row => rfl
    | none => cases db.findById maker.orderId <;> rfl
  · rfl

/-- One match leaves the rows of all other orders. -/
theorem lookup_fillMaker_of_ne {k : Uuid} (hne : k ≠ maker.orderId) :
    lookup Order.id (fillMaker db tradeIds maker m).1.rows k = lookup Order.id m.1.rows k := by
  rw [SequentialOrders.fillMaker, UnitOfWork.fill_rows, lookup_write_updateExecution, if_neg hne]

/-- One match fills the row of the maker, when its entry is that row's. -/
theorem findById_fillMaker (hrow : m.1.findById db maker.orderId = some order)
    (hentry : entryOf order = maker) (k : Uuid) :
    (fillMaker db tradeIds maker m).1.findById db k =
      if k = maker.orderId then some (filledBy order (m.1.matchAmount maker))
      else m.1.findById db k := by
  have hremaining : maker.remainingAmount = order.remainingAmount := hentry ▸ rfl
  have hfilled : m.1.currentMakerFilled db maker = order.filledAmount + m.1.matchAmount maker := by
    rw [UnitOfWork.currentMakerFilled, hrow]
  rw [SequentialOrders.fillMaker, findById_fill, UnitOfWork.updateExecution, hrow, hfilled,
    Option.map_some, UnitOfWork.makerStatus, UnitOfWork.newMakerRemaining, hremaining]
  rfl

/-- An entry of the working book is that of another order's open row. -/
theorem exists_row_of_workingBook (h : workingBook db w orderId = some maker) :
    ∃ order, w.findById db orderId = some order ∧ order.status ∈ OrderStatus.cancellable ∧
      entryOf order = maker ∧ orderId ≠ w.takerOrder.id := by
  obtain ⟨order, hworking, hstatus, hentry⟩ := openBook_eq_some.mp h
  have hne : orderId ≠ w.takerOrder.id := fun heq => by simp [heq] at hworking
  exact ⟨order, by simpa [hne] using hworking, hstatus, hentry, hne⟩

/-- The update of a maker's row shows in the book of the open orders. -/
theorem workingBook_fillMaker (hmaker : workingBook db m.1 maker.orderId = some maker) :
    workingBook db (fillMaker db tradeIds maker m).1 =
      takeFrom (workingBook db m.1) maker (m.1.matchAmount maker) := by
  obtain ⟨order, hrow, -, hentry, hne⟩ := exists_row_of_workingBook hmaker
  funext k
  have htaker : (fillMaker db tradeIds maker m).1.takerOrder = m.1.takerOrder := rfl
  rw [takeFrom, Function.update_apply, workingBook, openBook, htaker,
    findById_fillMaker hrow hentry]
  by_cases hk : k = maker.orderId
  · subst hk hentry
    rw [if_neg hne, if_pos rfl, if_pos rfl, Option.bind_some, openEntry, filledBy]
    have hremaining : (entryOf order).remainingAmount = order.remainingAmount := rfl
    rw [hremaining]
    split <;> simp [UnitOfWork.executed, OrderStatus.cancellable, *]
    rfl
  · rw [if_neg hk, if_neg hk]
    rfl

/-! ### One match -/

/-- A match at the maker's price is a fill of the taker. -/
theorem fills_matchedTrade_taker {taker : Order} {tradeId : Uuid} {n : ℕ}
    (h : Opposes taker maker) (hquantity : 0 < quantity) (hprice : 0 ≤ maker.price) :
    Fills taker (tradeExecutedPayload (matchedTrade taker maker quantity tradeId) n) := by
  refine ⟨hquantity, hprice, rfl, fun hside => ?_, fun hside => ?_⟩
  · have hmatch := h.price_match
    simp only [isPriceMatch, hside, decide_eq_true_eq] at hmatch
    simpa [tradeExecutedPayload, matchedTrade, hside] using hmatch
  · have hmatch := h.price_match
    simp only [isPriceMatch, hside, decide_eq_true_eq] at hmatch
    simpa [tradeExecutedPayload, matchedTrade, hside] using hmatch

/-- It is a fill of the maker at its own price. -/
theorem fills_matchedTrade_maker {taker : Order} {tradeId : Uuid} {n : ℕ}
    (h : Opposes taker (entryOf order)) (hquantity : 0 < quantity) (hprice : 0 ≤ order.price) :
    Fills order (tradeExecutedPayload (matchedTrade taker (entryOf order) quantity tradeId) n) := by
  have hopposing : order.side = taker.side.opposing := h.side_eq
  have hpair : taker.pair = order.pair := h.pair_eq.symm
  refine ⟨hquantity, hprice, hpair, fun hside => ?_, fun hside => ?_⟩
  · have htaker : taker.side = .sell := by
      cases htaker : taker.side with
      | buy => simp [hopposing, htaker, OrderSide.opposing] at hside
      | sell => rfl
    simp [tradeExecutedPayload, matchedTrade, htaker, entryOf]
  · have htaker : taker.side = .buy := by
      cases htaker : taker.side with
      | buy => rfl
      | sell => simp [hopposing, htaker, OrderSide.opposing] at hside
    simp [tradeExecutedPayload, matchedTrade, htaker, entryOf]

theorem fills_filledBy (h : Fills order trade) : Fills (filledBy order quantity) trade :=
  ⟨h.quantity_pos, h.price_nonneg, h.symbol, h.buy, h.sell⟩

theorem reported_fillMaker :
    reported (fillMaker db tradeIds maker m).1.trades = reported m.1.trades ++
      [tradeExecutedPayload (matchedTrade m.1.takerOrder maker (m.1.matchAmount maker)
        (tradeIds m.1.trades.length)) 0] := by
  rw [SequentialOrders.fillMaker, UnitOfWork.fill_trades, reported, List.map_append]
  rfl

theorem tradedSoFar_fillMaker :
    tradedSoFar db (fillMaker db tradeIds maker m).1 orderId = tradedSoFar db m.1 orderId +
      if orderId = m.1.takerOrder.id ∨ orderId = maker.orderId then m.1.matchAmount maker
      else 0 := by
  rw [tradedSoFar, SequentialOrders.fillMaker, tradedQuantity_fill, tradedSoFar, add_assoc]

/-- A match with the entry of an open order keeps rows, trades and book in agreement. -/
theorem Working.fillMaker (h : Working db m)
    (hmaker : workingBook db m.1 maker.orderId = some maker)
    (hopposes : Opposes m.1.takerOrder maker) (hopen : 0 < m.1.currentTakerRemaining) :
    Working db (fillMaker db tradeIds maker m) := by
  obtain ⟨order, hrow, hstatus, hentry, hne⟩ := exists_row_of_workingBook hmaker
  have hsound := h.rows maker.orderId order hne hrow
  have hle : m.1.matchAmount maker ≤ order.remainingAmount := hentry ▸ min_le_right _ _
  have hleTaker : m.1.matchAmount maker ≤ m.1.currentTakerRemaining := min_le_left _ _
  have hquantity : 0 < m.1.matchAmount maker :=
    lt_min hopen (hentry ▸ hsound.remaining_pos hstatus)
  have hrows (k : Uuid) : (SequentialOrders.fillMaker db tradeIds maker m).1.findById db k = _ :=
    findById_fillMaker hrow hentry k
  have htotal := h.total
  have hnonneg := h.filled_nonneg
  refine ⟨?_, h.fresh, ?_, ?_, fun k row hk hfind => ?_, h.price_nonneg, ?_, ?_, ?_, ?_,
    fun trade htrade k hnames => ?_⟩
  · exact keyUnique_merge h.unique (by cases UnitOfWork.updateExecution .. <;> simp [KeyUnique])
  · exact (lookup_fillMaker_of_ne hne.symm).trans h.own
  · rw [workingBook_fillMaker hmaker]
    exact holds_updateBook h.book hmaker hopposes.side_eq
  · rw [hrows] at hfind
    rw [tradedSoFar_fillMaker]
    split at hfind
    · next heq =>
      obtain rfl := Option.some.inj hfind
      rw [if_pos (Or.inr heq), heq]
      exact hsound.filledBy hquantity hle
    · next hother =>
      rw [if_neg (fun h => h.elim hk hother), add_zero]
      exact h.rows k row hk hfind
  · change m.1.currentTakerFilled + m.1.matchAmount maker +
      (m.1.currentTakerRemaining - m.1.matchAmount maker) = m.1.takerOrder.amount
    omega
  · change 0 ≤ m.1.currentTakerFilled + m.1.matchAmount maker
    omega
  · change 0 ≤ m.1.currentTakerRemaining - m.1.matchAmount maker
    omega
  · change tradedQuantity (reported (m.1.fill db maker _ _).trades) m.1.takerOrder.id =
      m.1.currentTakerFilled + m.1.matchAmount maker
    rw [tradedQuantity_fill, if_pos (Or.inl rfl), h.filled_eq]
  · rw [hrows]
    rw [reported_fillMaker, ← List.append_assoc, List.mem_append, List.mem_singleton] at htrade
    rcases htrade with hold | rfl
    · obtain ⟨row, hfind, hfills⟩ := h.fills trade hold k hnames
      split
      · next heq =>
        rw [heq, hrow] at hfind
        obtain rfl := Option.some.inj hfind
        exact ⟨_, rfl, fills_filledBy hfills⟩
      · exact ⟨row, hfind, hfills⟩
    · rcases names_matchedTrade.mp hnames with heq | heq
      · rw [if_neg (heq ▸ Ne.symm hne), heq, UnitOfWork.findById, h.own]
        exact ⟨_, rfl, fills_matchedTrade_taker hopposes hquantity (hentry ▸ hsound.price_nonneg)⟩
      · subst hentry
        rw [if_pos heq]
        exact ⟨_, rfl,
          fills_filledBy (fills_matchedTrade_maker hopposes hquantity hsound.price_nonneg)⟩

/-! ### A transaction -/

/-- What a match with the entry of an open order keeps holds after the loop. -/
theorem fillAll_preserves {P : Matching → Prop} (h : P m)
    (hids : (makers.map OrderbookEntry.orderId).Nodup)
    (hcurrent : Current (workingBook db m.1) m.1.takerOrder.side makers)
    (hstep : ∀ maker ∈ makers, ∀ m, P m → workingBook db m.1 maker.orderId = some maker →
      m.1.currentTakerRemaining ≠ 0 → P (fillMaker db tradeIds maker m)) :
    P (fillAll db tradeIds makers m) := by
  induction makers generalizing m with
  | nil => exact h
  | cons maker makers ih =>
    rw [List.map_cons, List.nodup_cons] at hids
    rw [MatchingLoop.fillAll]
    split
    · exact h
    · next hleft =>
      have hmaker := (hcurrent maker List.mem_cons_self).1
      refine ih (hstep maker List.mem_cons_self m h hmaker hleft) hids.2 ?_
        fun other hother => hstep other (List.mem_cons_of_mem _ hother)
      rw [workingBook_fillMaker hmaker]
      exact hcurrent.takeFrom hids.1

theorem Working.fillAll (h : Working db m) (hids : (makers.map OrderbookEntry.orderId).Nodup)
    (hcurrent : Current (workingBook db m.1) m.1.takerOrder.side makers)
    (hopposes : ∀ e ∈ makers, Opposes m.1.takerOrder e) :
    Working db (fillAll db tradeIds makers m) := by
  have hrun : Working db (MatchingLoop.fillAll db tradeIds makers m) ∧
      (MatchingLoop.fillAll db tradeIds makers m).1.takerOrder = m.1.takerOrder := by
    refine fillAll_preserves (P := fun m' => Working db m' ∧ m'.1.takerOrder = m.1.takerOrder)
      ⟨h, rfl⟩ hids hcurrent ?_
    rintro maker hmaker m' ⟨hworking, htaker⟩ hbook hleft
    have hopen : 0 < m'.1.currentTakerRemaining :=
      lt_of_le_of_ne hworking.remaining_nonneg (Ne.symm hleft)
    exact ⟨hworking.fillMaker hbook (htaker.symm ▸ hopposes maker hmaker) hopen, htaker⟩
  exact hrun.1

/-- The taker's row after its last update. -/
def lastUpdate (w : UnitOfWork) : Order :=
  UnitOfWork.executed w.takerOrder w.currentTakerFilled w.currentTakerRemaining w.takerStatus

theorem findById_finish (hown : lookup Order.id w.rows w.takerOrder.id = some w.takerOrder)
    (k : Uuid) : (w.finish db).findById db k =
      if k = w.takerOrder.id then some (lastUpdate w) else w.findById db k := by
  rw [UnitOfWork.findById, UnitOfWork.finish_rows, lookup_write_updateExecution]
  split
  · rw [UnitOfWork.updateExecution, UnitOfWork.findById, hown]
    rfl
  · rfl

/-- The transaction's rows, trades and book agree, the taker's included. -/
structure Matched (db : OrdersDb) (m : Matching) : Prop where
  unique : KeyUnique Order.id m.1.rows
  book : Holds m.2 (openBook (m.1.findById db))
  rows : ∀ orderId order, m.1.findById db orderId = some order →
    Sound order (tradedSoFar db m.1 orderId)
  fills : ∀ trade ∈ db.trades ++ reported m.1.trades, ∀ orderId, trade.Names orderId →
    ∃ order, m.1.findById db orderId = some order ∧ Fills order trade

/-- The trades of the committed events are fills of committed orders. -/
def FillsCommitted (db : OrdersDb) : Prop :=
  ∀ trade ∈ db.trades, ∀ orderId, trade.Names orderId →
    ∃ order, db.findById orderId = some order ∧ Fills order trade

theorem FillsCommitted.traded_eq_zero (h : FillsCommitted db) (hfresh : db.findById orderId = none) :
    tradedQuantity db.trades orderId = 0 := by
  refine tradedQuantity_eq_zero fun trade htrade hnames => ?_
  obtain ⟨order, horder, -⟩ := h trade htrade orderId hnames
  rw [hfresh] at horder
  cases horder

theorem Working.sound_lastUpdate (h : Working db m) (hpos : 0 < m.1.takerOrder.amount) :
    Sound (lastUpdate m.1) m.1.currentTakerFilled := by
  have htotal := h.total
  have hfilled := h.filled_nonneg
  have hremaining := h.remaining_nonneg
  refine ⟨h.price_nonneg, h.total, hfilled, hremaining, rfl, ?_, fun _ => ?_⟩ <;>
    simp only [lastUpdate, UnitOfWork.executed, UnitOfWork.takerStatus]
  · split
    · simp [*]
    · split <;> simp [*]
  · split
    · next hzero =>
      have hne : m.1.currentTakerFilled ≠ 0 := by omega
      simp [hne]
    · split
      · next hlt => simp [hlt.ne']
      · next hnone =>
        have hzero : m.1.currentTakerFilled = 0 := by omega
        simp [hzero]

theorem openEntry_lastUpdate : openEntry (lastUpdate w) =
    if w.currentTakerRemaining = 0 then none else some w.restingEntry := by
  rw [openEntry, lastUpdate, UnitOfWork.executed, UnitOfWork.takerStatus]
  split
  · simp [*, OrderStatus.cancellable]
  · split <;> simp [*, OrderStatus.cancellable, entryOf, UnitOfWork.restingEntry]

theorem workingBook_taker : workingBook db w w.takerOrder.id = none := by
  rw [workingBook, openBook, if_pos rfl, Option.bind_none]

/-- The last update of the taker shows in the book of the open orders. -/
theorem openBook_finish (hown : lookup Order.id w.rows w.takerOrder.id = some w.takerOrder) :
    openBook ((w.finish db).findById db) =
      Function.update (workingBook db w) w.takerOrder.id
        (if w.currentTakerRemaining = 0 then none else some w.restingEntry) := by
  funext k
  rw [openBook, findById_finish hown, Function.update_apply, ← openEntry_lastUpdate]
  split
  · rfl
  · next hne => rw [workingBook, openBook, if_neg hne]

/-- The last update of the taker and its entry, if it rests, complete the agreement. -/
theorem Working.finish (h : Working db m) (hcommitted : FillsCommitted db)
    (hpos : 0 < m.1.takerOrder.amount) :
    Matched db (m.1.finish db, if m.1.currentTakerRemaining = 0 then m.2
      else m.2.addOrder m.1.restingEntry) := by
  have hrows (k : Uuid) : (m.1.finish db).findById db k = _ := findById_finish h.own k
  refine ⟨?_, ?_, fun k row hfind => ?_, fun trade htrade k hnames => ?_⟩
  · exact keyUnique_merge h.unique (by cases UnitOfWork.updateExecution .. <;> simp [KeyUnique])
  · rw [openBook_finish h.own]
    split
    · have hsame : Function.update (workingBook db m.1) m.1.takerOrder.id none =
          workingBook db m.1 := Function.update_eq_self_iff.mpr workingBook_taker.symm
      rw [hsame]
      exact h.book
    · exact h.book.addOrder workingBook_taker
  · rw [hrows] at hfind
    change Sound row (tradedQuantity db.trades k + tradedQuantity (reported m.1.trades) k)
    split at hfind
    · next heq =>
      obtain rfl := Option.some.inj hfind
      rw [heq, hcommitted.traded_eq_zero h.fresh, zero_add, h.filled_eq]
      exact h.sound_lastUpdate hpos
    · next hne => exact h.rows k row hne hfind
  · obtain ⟨row, hfind, hfills⟩ := h.fills trade htrade k hnames
    rw [hrows]
    split
    · next heq =>
      rw [heq, UnitOfWork.findById, h.own] at hfind
      obtain rfl := Option.some.inj hfind
      exact ⟨_, rfl, hfills.quantity_pos, hfills.price_nonneg, hfills.symbol, hfills.buy,
        hfills.sell⟩
    · exact ⟨row, hfind, hfills⟩

/-- The whole loop. -/
theorem Working.fillMakers (h : Working db m) :
    Working db (MatchingLoop.fillAll db tradeIds (makersFor m.2 m.1.takerOrder) m) :=
  h.fillAll (nodup_makersFor h.book.namesKept _) (current_makersFor h.book)
    fun _ he => (mem_makersFor h.book he).2

theorem Working.executeMatch (h : Working db m) (hcommitted : FillsCommitted db)
    (hpos : 0 < m.1.takerOrder.amount) : Matched db (executeMatch db tradeIds m) := by
  have hloop : matchOrders db tradeIds
      (m.2.getBestOpposingOrders m.1.takerOrder.pair m.1.takerOrder.side) m =
        MatchingLoop.fillAll db tradeIds (makersFor m.2 m.1.takerOrder) m := matchOrders_eq_fillAll
  rw [SequentialOrders.executeMatch, hloop]
  exact h.fillMakers.finish hcommitted (fillAll_takerOrder.symm ▸ hpos)

/-! ### Events -/

/-- Each trade of the transaction has one event. -/
def Reported (w : UnitOfWork) : Prop :=
  (w.outboxList.filterMap OutboxEvent.trade).map unnumbered = reported w.trades

theorem fillAll_outboxList : (fillAll db tradeIds makers m).1.outboxList = m.1.outboxList :=
  fillAll_of_kept (f := fun m => m.1.outboxList) fun _ _ _ => rfl

theorem executeMatch_outboxList : (executeMatch db tradeIds m).1.outboxList = m.1.outboxList := by
  simp only [SequentialOrders.executeMatch, matchOrders_eq_fillAll, UnitOfWork.finish_outboxList,
    fillAll_outboxList]

/-- Reporting trades adds their events and numbers of the book. -/
theorem reportTrades_eq (trades : List MatchedTrade) : ∃ events valkey,
    reportTrades trades m = (m.1.emit events, valkey) ∧
      (events.filterMap OutboxEvent.trade).map unnumbered = reported trades ∧
        ∀ book, Holds m.2 book → Holds valkey book := by
  induction trades generalizing m with
  | nil => exact ⟨[], m.2, by simp [reportTrades, UnitOfWork.emit], rfl, fun _ h => h⟩
  | cons trade trades ih =>
    let event := tradeExecutedEvent trade (m.2.nextSequence trade.symbol).2
    have hevent : event.trade = some (tradeExecutedPayload trade _) := rfl
    obtain ⟨events, valkey, heq, hevents, hbook⟩ :=
      @ih (m.1.emit [event], (m.2.nextSequence trade.symbol).1)
    refine ⟨event :: events, valkey, ?_, ?_, fun book h => hbook book h.nextSequence⟩
    · exact heq.trans (by simp [UnitOfWork.emit])
    · rw [List.filterMap_cons_some hevent, List.map_cons, hevents]
      rfl

/-- The transaction when its matching starts. -/
def opened (order : Order) (v : Valkey) : Matching :=
  ((UnitOfWork.start order).emit [orderPlacedEvent order
      ((v.nextSequence order.pair).1.getLevelTotalQuantity order.pair order.side order.price)
      (v.nextSequence order.pair).2], (v.nextSequence order.pair).1)

/-- After the matching the transaction adds events and takes numbers of the book. -/
theorem placeOrder_eq : ∃ events valkey,
    placeOrder db tradeIds order v =
        ((executeMatch db tradeIds (opened order v)).1.emit events, valkey) ∧
      (events.filterMap OutboxEvent.trade).map unnumbered =
        reported (executeMatch db tradeIds (opened order v)).1.trades ∧
        ∀ book, Holds (executeMatch db tradeIds (opened order v)).2 book → Holds valkey book := by
  obtain ⟨events, valkey, heq, hevents, hbook⟩ :=
    @reportTrades_eq (executeMatch db tradeIds (opened order v))
      (executeMatch db tradeIds (opened order v)).1.trades
  have hplace : placeOrder db tradeIds order v =
      ((reportTrades (executeMatch db tradeIds (opened order v)).1.trades
          (executeMatch db tradeIds (opened order v))).1.emit
        (reportTrades (executeMatch db tradeIds (opened order v)).1.trades
          (executeMatch db tradeIds (opened order v))).1.orderFilledEvents,
        (reportTrades (executeMatch db tradeIds (opened order v)).1.trades
          (executeMatch db tradeIds (opened order v))).2) := rfl
  rw [hplace, heq]
  refine ⟨events ++ ((executeMatch db tradeIds (opened order v)).1.emit events).orderFilledEvents,
    valkey, ?_, ?_, hbook⟩
  · simp [UnitOfWork.emit]
  · rw [List.filterMap_append, trade_orderFilledEvents, List.append_nil, hevents]

/-- Events and numbers of the book do not matter. -/
theorem Matched.emit (h : Matched db (w, v)) (events : List OutboxEvent) {valkey : Valkey}
    (hbook : ∀ book, Holds v book → Holds valkey book) : Matched db (w.emit events, valkey) :=
  ⟨h.unique, hbook _ h.book, h.rows, h.fills⟩

/-! ### The committed state -/

/-- The committed rows and trades agree with the book. -/
structure Agreed (db : OrdersDb) (v : Valkey) : Prop where
  unique : KeyUnique Order.id db.orders
  book : Holds v (openBook db.findById)
  rows : ∀ orderId order, db.findById orderId = some order →
    Sound order (tradedQuantity db.trades orderId)
  fills : FillsCommitted db

/-- A new order as it is inserted. -/
structure NewRow (db : OrdersDb) (order : Order) : Prop where
  fresh : db.findById order.id = none
  price_nonneg : 0 ≤ order.price
  amount_pos : 0 < order.amount
  remaining_eq : order.remainingAmount = order.amount
  filled_eq : order.filledAmount = 0

theorem Agreed.working_start (h : Agreed db v) (hnew : NewRow db order) (events : List OutboxEvent) :
    Working db ((UnitOfWork.start order).emit events, v) := by
  have hfind (k : Uuid) (hk : k ≠ order.id) :
      ((UnitOfWork.start order).emit events).findById db k = db.findById k := by
    have hnone : lookup Order.id [order] k = none := by simp [lookup, Ne.symm hk]
    rw [UnitOfWork.findById, UnitOfWork.emit, UnitOfWork.start, hnone, Option.none_or]
  have hbook : workingBook db ((UnitOfWork.start order).emit events) = openBook db.findById := by
    have htaker : ((UnitOfWork.start order).emit events).takerOrder = order := rfl
    funext k
    rw [workingBook, openBook, openBook, htaker]
    by_cases hk : k = order.id
    · rw [hk, if_pos rfl, hnew.fresh]
    · rw [if_neg hk, hfind k hk]
  have hamount := hnew.amount_pos
  refine ⟨List.nodup_singleton _, hnew.fresh, ?_, hbook.symm ▸ h.book, fun k row hk hrow => ?_,
    hnew.price_nonneg, ?_, hnew.filled_eq.ge, ?_, hnew.filled_eq.symm,
    fun trade htrade k hnames => ?_⟩
  · simp [UnitOfWork.emit, UnitOfWork.start, lookup]
  · rw [hfind k hk] at hrow
    change Sound row (tradedQuantity db.trades k + 0)
    rw [add_zero]
    exact h.rows k row hrow
  · change order.filledAmount + order.remainingAmount = order.amount
    rw [hnew.filled_eq, hnew.remaining_eq, zero_add]
  · change 0 ≤ order.remainingAmount
    rw [hnew.remaining_eq]
    exact hamount.le
  · obtain ⟨row, hrow, hfills⟩ := h.fills trade (by simpa [reported, UnitOfWork.emit,
      UnitOfWork.start] using htrade) k hnames
    have hk : k ≠ order.id := fun heq => by
      rw [heq, hnew.fresh] at hrow
      cases hrow
    exact ⟨row, (hfind k hk).trans hrow, hfills⟩

theorem Agreed.working_opened (h : Agreed db v) (hnew : NewRow db order) :
    Working db (opened order v) := by
  have hstart := h.working_start hnew [orderPlacedEvent order
    ((v.nextSequence order.pair).1.getLevelTotalQuantity order.pair order.side order.price)
    (v.nextSequence order.pair).2]
  exact { hstart with book := hstart.book.nextSequence }

/-- The whole transaction of a new order. -/
theorem Agreed.placeOrder (h : Agreed db v) (hnew : NewRow db order) :
    Matched db (placeOrder db tradeIds order v) ∧
      Reported (placeOrder db tradeIds order v).1 := by
  have hopened : Working db (opened order v) := h.working_opened hnew
  have hmatched := @Working.executeMatch _ tradeIds _ hopened h.fills hnew.amount_pos
  obtain ⟨events, valkey, hplace, hevents, hbook⟩ := @placeOrder_eq db tradeIds v order
  rw [hplace]
  refine ⟨hmatched.emit events hbook, ?_⟩
  change ((executeMatch db tradeIds (opened order v)).1.outboxList ++ events |>.filterMap
    OutboxEvent.trade).map unnumbered = reported (executeMatch db tradeIds (opened order v)).1.trades
  rw [executeMatch_outboxList, List.filterMap_append, ← hevents]
  rfl

/-- Committing a transaction commits its agreement. -/
theorem Agreed.install (h : Agreed db v) {valkey : Valkey} (hm : Matched db (w, valkey))
    (hreported : Reported w) : Agreed (db.install w.rows w.outboxList) valkey := by
  have hfind : (db.install w.rows w.outboxList).findById = w.findById db := by
    funext k
    exact findById_install
  have htraded (k : Uuid) :
      tradedQuantity (db.install w.rows w.outboxList).trades k = tradedSoFar db w k := by
    rw [trades_install, tradedQuantity_append, tradedSoFar, ← hreported, tradedQuantity_unnumbered]
  refine ⟨keyUnique_merge h.unique hm.unique, hfind ▸ hm.book, fun k row hrow => ?_,
    fun trade htrade k hnames => ?_⟩
  · rw [htraded]
    exact hm.rows k row (hfind ▸ hrow)
  · rw [hfind]
    rw [trades_install, List.mem_append] at htrade
    rcases htrade with hold | hnew
    · exact hm.fills trade (List.mem_append_left _ hold) k hnames
    · have hmem : unnumbered trade ∈ reported w.trades := hreported ▸ List.mem_map_of_mem hnew
      obtain ⟨row, hrow, hfills⟩ := hm.fills _ (List.mem_append_right _ hmem) k hnames
      exact ⟨row, hrow, hfills.quantity_pos, hfills.price_nonneg, hfills.symbol, hfills.buy,
        hfills.sell⟩

theorem findById_cancelled {event : OutboxEvent} (k : Uuid) :
    (db.install [{ order with status := .cancelled }] [event]).findById k =
      if k = order.id then some { order with status := .cancelled } else db.findById k := by
  rw [findById_install]
  by_cases hk : k = order.id
  · simp [lookup, hk]
  · simp [lookup, hk, Ne.symm hk]

/-- A row that is cancelled leaves the book. -/
theorem Agreed.cancel (h : Agreed db v) {cancelled : Order} {event : OutboxEvent}
    (hrow : db.findById order.id = some order) (hstatus : order.status ∈ OrderStatus.cancellable)
    (hcancelled : cancelled = { order with status := .cancelled }) (hevent : event.trade = none) :
    Agreed (db.install [cancelled] [event]) (v.removeOrder order.id order.pair order.side) := by
  subst hcancelled
  have hfind (k : Uuid) := @findById_cancelled db order event k
  have htrades : (db.install [{ order with status := .cancelled }] [event]).trades = db.trades := by
    rw [trades_install, List.filterMap_cons_none hevent, List.filterMap_nil, List.append_nil]
  have hentry : openEntry order = some (entryOf order) := if_pos hstatus
  have hbook : openBook (db.install [{ order with status := .cancelled }] [event]).findById =
      Function.update (openBook db.findById) order.id none := by
    funext k
    rw [openBook, hfind, Function.update_apply]
    split
    · simp [openEntry, OrderStatus.cancellable]
    · rfl
  have hsound := h.rows order.id order hrow
  refine ⟨keyUnique_merge h.unique (List.nodup_singleton _), ?_, fun k row hfound => ?_,
    fun trade htrade k hnames => ?_⟩
  · rw [hbook]
    refine h.book.removeOrder fun e he => ?_
    rw [openBook, hrow, Option.bind_some, hentry] at he
    obtain rfl := Option.some.inj he
    exact ⟨rfl, rfl⟩
  · rw [hfind] at hfound
    rw [htrades]
    split at hfound
    · next heq =>
      obtain rfl := Option.some.inj hfound
      have hpos := hsound.remaining_pos hstatus
      have hne : order.remainingAmount ≠ 0 := hpos.ne'
      refine ⟨hsound.price_nonneg, hsound.total, hsound.filled_nonneg, hsound.remaining_nonneg,
        heq ▸ hsound.filled_eq, ?_, fun hopen => absurd rfl hopen⟩
      simp [hne]
    · exact h.rows k row hfound
  · rw [htrades] at htrade
    rw [hfind]
    obtain ⟨row, hfound, hfills⟩ := h.fills trade htrade k hnames
    split
    · next heq =>
      rw [heq, hrow] at hfound
      obtain rfl := Option.some.inj hfound
      exact ⟨_, rfl, hfills.quantity_pos, hfills.price_nonneg, hfills.symbol, hfills.buy,
        hfills.sell⟩
    · exact ⟨row, hfound, hfills⟩

/-- An order that is not open is not in the book. -/
theorem Agreed.removeOrder (h : Agreed db v) (hrow : db.findById order.id = some order)
    (hstatus : order.status ∉ OrderStatus.cancellable) :
    Agreed db (v.removeOrder order.id order.pair order.side) := by
  have hnone : openBook db.findById order.id = none := by
    rw [openBook, hrow, Option.bind_some]
    exact if_neg hstatus
  have hsame : Function.update (openBook db.findById) order.id none = openBook db.findById :=
    Function.update_eq_self_iff.mpr hnone.symm
  refine { h with book := hsame ▸ h.book.removeOrder fun e he => ?_ }
  rw [hnone] at he
  cases he

theorem Agreed.of_eq {db' : OrdersDb} (h : Agreed db v) (horders : db'.orders = db.orders)
    (hevents : db'.outboxEvents = db.outboxEvents) : Agreed db' v := by
  have hfind : db'.findById = db.findById := by
    funext k
    rw [OrdersDb.findById, horders, OrdersDb.findById]
  have htrades : db'.trades = db.trades := by rw [OrdersDb.trades, hevents, OrdersDb.trades]
  refine ⟨horders ▸ h.unique, hfind ▸ h.book, fun k row hrow => ?_, fun trade htrade => ?_⟩
  · rw [htrades]
    exact h.rows k row (hfind ▸ hrow)
  · rw [hfind]
    exact h.fills trade (htrades ▸ htrade)

theorem agreed_empty : Agreed .empty .empty where
  unique := keyUnique_nil
  book := holds_empty
  rows _ _ h := by cases h
  fills _ h := absurd h List.not_mem_nil

end EtherTrade.OpenOrders
