import EtherTrade.MatchTurns

/-!
# Matching one order

`executeMatch` on any opposing list that agrees with the rows and comes at best prices
first: what it leaves of the taker and of each maker, in their rows and in the book, and
which trades it makes.
-/

namespace EtherTrade.OrderMatchLaws

open KeyedRows AccountsSchema OrdersSchema OrderBook MatchingEngine OrdersTransactionInvariants
open SequentialOrders RestingOrders MatchingLoop OpenOrders MatchTurns
open TradeSettlement (TradingSymbol)

variable {db : OrdersDb} {tradeIds : ℕ → Uuid} {m : Matching} {w : UnitOfWork} {v v' : Valkey}
  {taker row updated : Order} {maker e : OrderbookEntry} {makers entries : List OrderbookEntry}
  {events : List OutboxEvent} {quantity : ℤ} {orderId : Uuid} {pair : TradingSymbol}
  {side : OrderSide}

/-- The transaction of a taker when its matching starts. -/
def begun (taker : Order) (events : List OutboxEvent) (v : Valkey) : Matching :=
  ((UnitOfWork.start taker).emit events, v)

/-- `executeMatch` once it has read its opposing orders. -/
def executeMatchOn (db : OrdersDb) (tradeIds : ℕ → Uuid) (opposingOrders : List OrderbookEntry)
    (m : Matching) : Matching :=
  let matched := matchOrders db tradeIds opposingOrders m
  (matched.1.finish db,
    if matched.1.currentTakerRemaining = 0 then matched.2
    else matched.2.addOrder matched.1.restingEntry)

theorem executeMatch_eq_executeMatchOn : executeMatch db tradeIds m = executeMatchOn db tradeIds
    (m.2.getBestOpposingOrders m.1.takerOrder.pair m.1.takerOrder.side) m := rfl

/-! ### What is required -/

/-- The price satisfies the limit of an order of the side. -/
def WithinLimit : OrderSide → ℤ → ℤ → Prop
  | .buy, limit, price => price ≤ limit
  | .sell, limit, price => limit ≤ price

instance : ∀ side limit price, Decidable (WithinLimit side limit price)
  | .buy, limit, price => inferInstanceAs (Decidable (price ≤ limit))
  | .sell, limit, price => inferInstanceAs (Decidable (limit ≤ price))

/-- Distinct orders of the other side that have something left, each as its row has it, and
with better prices first. -/
structure OpposingList (db : OrdersDb) (taker : Order) (entries : List OrderbookEntry) : Prop where
  distinct : (entries.map OrderbookEntry.orderId).Nodup
  side_eq : ∀ e ∈ entries, e.side = taker.side.opposing
  remaining_pos : ∀ e ∈ entries, 0 < e.remainingAmount
  agree : ∀ e ∈ entries, ∃ row, (UnitOfWork.start taker).findById db e.orderId = some row ∧
    entryOf row = e
  sorted : entries.Pairwise fun e e' => WithinLimit taker.side e'.price e.price

/-- The row once a quantity of it is traded. -/
structure ExecutedBy (order : Order) (quantity : ℤ) (updated : Order) : Prop where
  filled_eq : updated.filledAmount = order.filledAmount + quantity
  total_eq : updated.filledAmount + updated.remainingAmount =
    order.filledAmount + order.remainingAmount
  remaining_nonneg : 0 ≤ updated.remainingAmount
  rest_eq : updated = UnitOfWork.executed order updated.filledAmount updated.remainingAmount
    updated.status

/-- The score of an order in a sorted set, and its hash. -/
def listing (v : Valkey) (pair : TradingSymbol) (side : OrderSide) (orderId : Uuid) :
    Option ℚ × Option OrderbookEntry :=
  ((v.orderbooks pair side).score orderId, v.getOrderDetails orderId)

/-- The listing of an order of which some is left: it is removed when that is nothing. -/
def leaving (remainingAmount : ℤ) (listed : Option ℚ × Option OrderbookEntry) :
    Option ℚ × Option OrderbookEntry :=
  if remainingAmount = 0 then (none, none)
  else (listed.1, listed.2.map fun entry => { entry with remainingAmount })

/-- The trade is one of the taker with the maker, at the maker's price. -/
structure TradeBetween (taker : Order) (e : OrderbookEntry) (trade : MatchedTrade) : Prop where
  makerOrder_eq : trade.makerOrderId = e.orderId
  makerUser_eq : trade.makerUserId = e.userId
  takerOrder_eq : trade.takerOrderId = taker.id
  takerUser_eq : trade.takerUserId = taker.userId
  price_eq : trade.price = e.price
  quantity_pos : 0 < trade.quantity
  taker_limit : WithinLimit taker.side taker.price trade.price
  maker_limit : WithinLimit e.side e.price trade.price
  buyer_limit : trade.price ≤ trade.buyerLimitPrice
  users_ne : trade.buyerUserId ≠ trade.sellerUserId

/-- What a match does to an entry of the list, given the quantities traded with it. -/
structure MakerExecuted (v v' : Valkey) (quantities : List ℤ) (e : OrderbookEntry)
    (row updated : Order) : Prop where
  executed : ExecutedBy row quantities.sum updated
  untraded : quantities = [] → updated = row ∧
    listing v' e.pair e.side e.orderId = listing v e.pair e.side e.orderId
  traded : quantities ≠ [] →
    updated.status = (if updated.remainingAmount = 0 then .filled else .partiallyFilled) ∧
      listing v' e.pair e.side e.orderId =
        leaving updated.remainingAmount (listing v e.pair e.side e.orderId)

/-- Nothing is left of the order. -/
def Exhausted (db : OrdersDb) (w : UnitOfWork) (orderId : Uuid) : Prop :=
  ∃ updated, w.findById db orderId = some updated ∧ updated.remainingAmount = 0

/-- The result of matching a taker against a list. -/
structure MatchedGreedily (db : OrdersDb) (taker : Order) (v : Valkey)
    (entries : List OrderbookEntry) (m : Matching) : Prop where
  taker_row : m.1.findById db taker.id = some m.1.updatedTaker
  taker_executed : ExecutedBy taker (volume m.1.trades) m.1.updatedTaker
  taker_status : m.1.updatedTaker.status =
    if m.1.updatedTaker.remainingAmount = 0 then .filled
    else if 0 < m.1.updatedTaker.filledAmount then .partiallyFilled
    else .opened
  taker_listed : listing m.2 taker.pair taker.side taker.id =
    if m.1.updatedTaker.remainingAmount = 0 then listing v taker.pair taker.side taker.id
    else (some (bookScore (entryOf m.1.updatedTaker)), some (entryOf m.1.updatedTaker))
  makers : ∀ e ∈ entries, ∃ row updated,
    (UnitOfWork.start taker).findById db e.orderId = some row ∧
      m.1.findById db e.orderId = some updated ∧
        MakerExecuted v m.2 (tradedWith m.1.trades e.orderId) e row updated
  makers_returned : m.1.makerOrdersUpdated.map some =
    m.1.trades.map fun trade => m.1.findById db trade.makerOrderId
  others : ∀ orderId, orderId ≠ taker.id → orderId ∉ entries.map OrderbookEntry.orderId →
    m.1.findById db orderId = (UnitOfWork.start taker).findById db orderId ∧
      ∀ pair side, listing m.2 pair side orderId = listing v pair side orderId
  trades_sound : ∀ trade ∈ m.1.trades, ∃ e ∈ entries, TradeBetween taker e trade
  in_order : ∀ before e after, entries = before ++ e :: after →
    tradedWith m.1.trades e.orderId ≠ [] →
      ∀ e' ∈ before, e'.userId = taker.userId ∨ Exhausted db m.1 e'.orderId
  greedy : m.1.updatedTaker.remainingAmount ≠ 0 → ∀ e ∈ entries, e.userId ≠ taker.userId →
    WithinLimit taker.side taker.price e.price → Exhausted db m.1 e.orderId

/-! ### The list -/

theorem isPriceMatch_iff : isPriceMatch taker e = true ↔
    WithinLimit taker.side taker.price e.price := by
  unfold isPriceMatch
  cases taker.side <;> simp [WithinLimit]

theorem findById_start : (UnitOfWork.start taker).findById db taker.id = some taker := by
  simp [UnitOfWork.findById, UnitOfWork.start, lookup]

/-- A price as good as one within the limit is within it. -/
theorem WithinLimit.trans {limit price price' : ℤ} (h : WithinLimit side price' price)
    (h' : WithinLimit side limit price') : WithinLimit side limit price := by
  cases side with
  | buy => exact le_trans h h'
  | sell => exact le_trans h' h

/-- A price is within itself as a limit. -/
theorem withinLimit_self {price : ℤ} : WithinLimit side price price := by
  cases side <;> exact le_rfl

/-- The orders of other users within the limit are in reach, for the better prices come first. -/
theorem mem_reachable
    (hsorted : entries.Pairwise fun e e' => WithinLimit taker.side e'.price e.price)
    (he : e ∈ entries) (hother : e.userId ≠ taker.userId)
    (hlimit : WithinLimit taker.side taker.price e.price) : e ∈ reachable taker entries := by
  induction entries with
  | nil => exact absurd he List.not_mem_nil
  | cons first entries ih =>
    obtain ⟨hfirst, htail⟩ := List.pairwise_cons.mp hsorted
    rcases List.mem_cons.mp he with rfl | hmem
    · rw [reachable, List.filter_cons_of_pos (by simpa using hother),
        List.takeWhile_cons_of_pos (isPriceMatch_iff.mpr hlimit)]
      exact List.mem_cons_self
    · have hrest := ih htail hmem
      by_cases hself : first.userId = taker.userId
      · rwa [reachable, List.filter_cons_of_neg (by simpa using hself)]
      · have hmatch : isPriceMatch taker first = true :=
          isPriceMatch_iff.mpr ((hfirst e hmem).trans hlimit)
        rw [reachable, List.filter_cons_of_pos (by simpa using hself),
          List.takeWhile_cons_of_pos hmatch]
        exact List.mem_cons_of_mem _ hrest

theorem mem_of_reachable (h : e ∈ reachable taker entries) :
    e ∈ entries ∧ e.userId ≠ taker.userId ∧ WithinLimit taker.side taker.price e.price := by
  obtain ⟨hmem, hother⟩ := List.mem_filter.mp ((List.takeWhile_prefix _).subset h)
  exact ⟨hmem, by simpa using hother,
    isPriceMatch_iff.mp (List.all_eq_true.mp List.all_takeWhile e h)⟩

theorem nodup_reachable (h : (entries.map OrderbookEntry.orderId).Nodup) :
    ((reachable taker entries).map OrderbookEntry.orderId).Nodup :=
  h.sublist (((List.takeWhile_prefix _).sublist.trans List.filter_sublist).map _)

/-- The orders of other users in front of a maker in reach are the makers ahead of it. -/
theorem ahead_reachable {before after : List OrderbookEntry}
    (hids : ((before ++ e :: after).map OrderbookEntry.orderId).Nodup)
    (h : e ∈ reachable taker (before ++ e :: after)) :
    ahead (reachable taker (before ++ e :: after)) e =
      before.filter fun maker => maker.userId ≠ taker.userId := by
  have hother := (mem_of_reachable h).2.1
  obtain ⟨rest, hrest⟩ := List.takeWhile_prefix (isPriceMatch taker)
    (l := (before ++ e :: after).filter fun maker => maker.userId ≠ taker.userId)
  have hbefore : ∀ other ∈ before.filter fun maker => maker.userId ≠ taker.userId, other ≠ e := by
    rintro other hmem rfl
    rw [List.map_append, List.nodup_append] at hids
    exact hids.2.2 _ (List.mem_map_of_mem (List.mem_of_mem_filter hmem)) _ List.mem_cons_self rfl
  have happend : ahead (reachable taker (before ++ e :: after)) e =
      ahead (reachable taker (before ++ e :: after) ++ rest) e := (ahead_append h).symm
  rw [happend, reachable, hrest, List.filter_append,
    List.filter_cons_of_pos (by simpa using hother), ahead,
    List.takeWhile_append_of_pos (by simpa using hbefore), List.takeWhile_cons_of_neg (by simp),
    List.append_nil]

/-! ### The book -/

theorem getOrderDetails_congr (h : v'.orderDetails orderId = v.orderDetails orderId) :
    v'.getOrderDetails orderId = v.getOrderDetails orderId := by
  rw [Valkey.getOrderDetails, Valkey.getOrderDetails, h]

theorem listing_updateBook_of_ne (h : orderId ≠ maker.orderId) :
    listing (updateBook w maker v) pair side orderId = listing v pair side orderId := by
  rw [updateBook]
  split
  · refine Prod.ext ?_ (getOrderDetails_congr (Function.update_of_ne h _ _))
    change ((v.zremOrder _ _ _).orderbooks pair side).score orderId = _
    rw [Valkey.zremOrder, orderbooks_setOrderbook]
    split
    · next heq =>
      obtain ⟨rfl, rfl⟩ := heq
      rw [SortedSets.SortedSet.score_zrem, if_neg h]
      rfl
    · rfl
  · exact Prod.ext rfl (getOrderDetails_congr (Function.update_of_ne h _ _))

/-- The listing of a maker follows what the match leaves of it. -/
theorem listing_updateBook (hside : maker.side = w.takerOrder.side.opposing) :
    listing (updateBook w maker v) maker.pair maker.side maker.orderId =
      leaving (w.newMakerRemaining maker) (listing v maker.pair maker.side maker.orderId) := by
  rw [updateBook, UnitOfWork.makerStatus, leaving]
  by_cases hfilled : w.newMakerRemaining maker = 0
  · rw [if_pos hfilled, if_pos rfl, if_pos hfilled, ← hside]
    refine Prod.ext ?_ ?_
    · change ((v.zremOrder _ _ _).orderbooks maker.pair maker.side).score maker.orderId = _
      rw [Valkey.zremOrder, orderbooks_setOrderbook, if_pos ⟨rfl, rfl⟩,
        SortedSets.SortedSet.score_zrem, if_pos rfl]
    · simp [listing, Valkey.removeOrder, Valkey.delOrder, Valkey.getOrderDetails]
  · rw [if_neg hfilled, if_neg (by decide), if_neg hfilled]
    refine Prod.ext rfl ?_
    simp only [listing, Valkey.updateRemainingAmount, Valkey.getOrderDetails, Function.update_self]
    cases v.orderDetails maker.orderId <;> rfl

theorem listing_fillMaker_of_ne (h : orderId ≠ maker.orderId) :
    listing (fillMaker db tradeIds maker m).2 pair side orderId = listing m.2 pair side orderId :=
  listing_updateBook_of_ne h

theorem listing_fillAll (hids : (makers.map OrderbookEntry.orderId).Nodup) (he : e ∈ makers)
    (hpos : 0 ≤ m.1.currentTakerRemaining) (hside : e.side = m.1.takerOrder.side.opposing) :
    listing (fillAll db tradeIds makers m).2 e.pair e.side e.orderId =
      if Outlasts m.1.currentTakerRemaining (ahead makers e) then
        leaving (e.remainingAmount - share m.1.currentTakerRemaining makers e)
          (listing m.2 e.pair e.side e.orderId)
      else listing m.2 e.pair e.side e.orderId := by
  rcases fillAll_turn (f := fun m => listing m.2 e.pair e.side e.orderId) hids he hpos
      fun _ _ hne => listing_fillMaker_of_ne hne with
    ⟨hlast, heq⟩ | ⟨hlast, turn, hturn, htaker, hamount, heq⟩
  · rw [if_neg hlast]
    exact heq
  · rw [if_pos hlast, ← hamount]
    refine heq.trans ((listing_updateBook (htaker ▸ hside)).trans ?_)
    exact congrArg (leaving _) hturn

theorem listing_fillAll_of_notMem (h : orderId ∉ makers.map OrderbookEntry.orderId) :
    listing (fillAll db tradeIds makers m).2 pair side orderId = listing m.2 pair side orderId :=
  fillAll_of_kept (f := fun m => listing m.2 pair side orderId) fun _ hmaker _ =>
    listing_fillMaker_of_ne fun heq => h (heq ▸ List.mem_map_of_mem hmaker)

theorem listing_addOrder_of_ne (h : orderId ≠ e.orderId) :
    listing (v.addOrder e) pair side orderId = listing v pair side orderId := by
  refine Prod.ext ?_ (getOrderDetails_congr (Function.update_of_ne h _ _))
  change ((v.zaddOrder e).orderbooks pair side).score orderId = _
  rw [Valkey.zaddOrder, orderbooks_setOrderbook]
  split
  · next heq =>
    obtain ⟨rfl, rfl⟩ := heq
    rw [SortedSets.SortedSet.score_zadd, if_neg h]
    rfl
  · rfl

theorem listing_addOrder :
    listing (v.addOrder e) e.pair e.side e.orderId = (some (bookScore e), some e) := by
  refine Prod.ext ?_ ?_
  · change ((v.zaddOrder e).orderbooks e.pair e.side).score e.orderId = _
    rw [Valkey.zaddOrder, orderbooks_setOrderbook, if_pos ⟨rfl, rfl⟩,
      SortedSets.SortedSet.score_zadd, if_pos rfl]
    rfl
  · simp [listing, Valkey.addOrder, Valkey.hsetOrder, Valkey.getOrderDetails]

/-! ### The entries of the list -/

/-- The loop over a list. -/
def looped (db : OrdersDb) (tradeIds : ℕ → Uuid) (taker : Order) (events : List OutboxEvent)
    (v : Valkey) (entries : List OrderbookEntry) : Matching :=
  fillAll db tradeIds (reachable taker entries) (begun taker events v)

theorem executeMatchOn_eq : executeMatchOn db tradeIds entries (begun taker events v) =
    ((looped db tradeIds taker events v entries).1.finish db,
      if (looped db tradeIds taker events v entries).1.currentTakerRemaining = 0 then
        (looped db tradeIds taker events v entries).2
      else (looped db tradeIds taker events v entries).2.addOrder
        (looped db tradeIds taker events v entries).1.restingEntry) := by
  have hloop : matchOrders db tradeIds entries (begun taker events v) =
      looped db tradeIds taker events v entries := matchOrders_eq_fillAll
  rw [executeMatchOn, hloop]

section List

variable (h : OpposingList db taker entries)

include h

theorem OpposingList.ne_taker (he : e ∈ entries) : e.orderId ≠ taker.id := by
  intro hid
  obtain ⟨row, hrow, hentry⟩ := h.agree e he
  rw [hid, findById_start] at hrow
  obtain rfl := Option.some.inj hrow
  have hside := h.side_eq e he
  rw [← hentry] at hside
  revert hside
  change taker.side = taker.side.opposing → False
  cases taker.side <;> decide

theorem OpposingList.notMem_reachable (he : e ∈ entries) (hreach : e ∉ reachable taker entries) :
    e.orderId ∉ (reachable taker entries).map OrderbookEntry.orderId := by
  intro hmem
  obtain ⟨maker, hmaker, hid⟩ := List.mem_map.mp hmem
  exact hreach (KeyUnique.eq h.distinct (mem_of_reachable hmaker).1 he hid ▸ hmaker)

variable (htaker : 0 < taker.remainingAmount)

include htaker

/-- An entry whose turn comes is traded with once, and the others are left alone. -/
theorem entry_looped (tradeIds : ℕ → Uuid) (events : List OutboxEvent) (v : Valkey)
    (he : e ∈ entries)
    (hrow : (UnitOfWork.start taker).findById db e.orderId = some row) (hentry : entryOf row = e) :
    (tradedWith (looped db tradeIds taker events v entries).1.trades e.orderId = [] ∧
      (looped db tradeIds taker events v entries).1.findById db e.orderId = some row ∧
        listing (looped db tradeIds taker events v entries).2 e.pair e.side e.orderId =
          listing v e.pair e.side e.orderId) ∨
    (e ∈ reachable taker entries ∧
      Outlasts taker.remainingAmount (ahead (reachable taker entries) e) ∧
        ∃ quantity, quantity = share taker.remainingAmount (reachable taker entries) e ∧
          tradedWith (looped db tradeIds taker events v entries).1.trades e.orderId =
            [quantity] ∧
          (looped db tradeIds taker events v entries).1.findById db e.orderId =
            some (filledBy row quantity) ∧
          listing (looped db tradeIds taker events v entries).2 e.pair e.side e.orderId =
            leaving (e.remainingAmount - quantity) (listing v e.pair e.side e.orderId)) := by
  have hids : ((reachable taker entries).map OrderbookEntry.orderId).Nodup :=
    nodup_reachable h.distinct
  by_cases hreach : e ∈ reachable taker entries
  · have htraded : tradedWith (looped db tradeIds taker events v entries).1.trades e.orderId =
        if Outlasts taker.remainingAmount (ahead (reachable taker entries) e) then
          [share taker.remainingAmount (reachable taker entries) e] else [] :=
      tradedWith_fillAll hids hreach htaker.le
    have hrows : (looped db tradeIds taker events v entries).1.findById db e.orderId = _ :=
      findById_fillAll hids hreach htaker.le hrow hentry
    have hlisted : listing (looped db tradeIds taker events v entries).2 e.pair e.side e.orderId =
        _ := listing_fillAll hids hreach htaker.le (h.side_eq e he)
    change _ = some (if Outlasts taker.remainingAmount _ then _ else _) at hrows
    change _ = (if Outlasts taker.remainingAmount _ then _ else _) at hlisted
    by_cases hlast : Outlasts taker.remainingAmount (ahead (reachable taker entries) e)
    · rw [if_pos hlast] at htraded hrows hlisted
      exact Or.inr ⟨hreach, hlast, _, rfl, htraded, hrows, hlisted⟩
    · rw [if_neg hlast] at htraded hrows hlisted
      exact Or.inl ⟨htraded, hrows, hlisted⟩
  · have hid := h.notMem_reachable he hreach
    exact Or.inl ⟨tradedWith_fillAll_of_notMem hid,
      (findById_fillAll_of_notMem hid).trans hrow, listing_fillAll_of_notMem hid⟩

/-- A maker in reach that the quantity covers has nothing left. -/
theorem exhausted_looped (hreach : e ∈ reachable taker entries)
    (hlast : Outlasts taker.remainingAmount (ahead (reachable taker entries) e))
    (hcovered : supply (ahead (reachable taker entries) e) + e.remainingAmount ≤
      taker.remainingAmount) :
    Exhausted db (looped db tradeIds taker events v entries).1 e.orderId := by
  obtain ⟨row, hrow, hentry⟩ := h.agree e (mem_of_reachable hreach).1
  have hrows : (looped db tradeIds taker events v entries).1.findById db e.orderId = _ :=
    findById_fillAll (nodup_reachable h.distinct) hreach htaker.le hrow hentry
  change _ = some (if Outlasts taker.remainingAmount _ then _ else _) at hrows
  rw [if_pos hlast] at hrows
  refine ⟨_, hrows, ?_⟩
  have hoffered : row.remainingAmount = e.remainingAmount := by rw [← hentry]; rfl
  change row.remainingAmount - share taker.remainingAmount (reachable taker entries) e = 0
  rw [share, hoffered]
  omega

end List

/-! ### The last update -/

theorem updatedTaker_finish (hown : lookup Order.id w.rows w.takerOrder.id = some w.takerOrder) :
    (w.finish db).updatedTaker = lastUpdate w := by
  have hupdated : (w.finish db).updatedTaker = (w.updateExecution db w.takerOrder.id
      w.currentTakerFilled w.currentTakerRemaining w.takerStatus).getD w.takerOrder := rfl
  rw [hupdated, UnitOfWork.updateExecution, UnitOfWork.findById, hown]
  rfl

theorem takerOrder_looped : (looped db tradeIds taker events v entries).1.takerOrder = taker :=
  fillAll_takerOrder

theorem own_looped (h : OpposingList db taker entries) :
    lookup Order.id (looped db tradeIds taker events v entries).1.rows
      (looped db tradeIds taker events v entries).1.takerOrder.id =
        some (looped db tradeIds taker events v entries).1.takerOrder := by
  have hrow : lookup Order.id (looped db tradeIds taker events v entries).1.rows taker.id =
      lookup Order.id (begun taker events v).1.rows taker.id := by
    refine fillAll_of_kept (f := fun m => lookup Order.id m.1.rows taker.id) fun maker hmaker m => ?_
    exact lookup_fillMaker_of_ne (h.ne_taker (mem_of_reachable hmaker).1).symm
  have hown : lookup Order.id (begun taker events v).1.rows taker.id = some taker := by
    simp [begun, UnitOfWork.start, UnitOfWork.emit, lookup]
  rw [takerOrder_looped, hrow, hown]

theorem findById_executeMatchOn (h : OpposingList db taker entries) :
    (executeMatchOn db tradeIds entries (begun taker events v)).1.findById db orderId =
      if orderId = taker.id then some (lastUpdate (looped db tradeIds taker events v entries).1)
      else (looped db tradeIds taker events v entries).1.findById db orderId := by
  rw [executeMatchOn_eq, findById_finish (own_looped h), takerOrder_looped]

/-- The taker that is returned is its row after the last update. -/
theorem updatedTaker_executeMatchOn (h : OpposingList db taker entries) :
    (executeMatchOn db tradeIds entries (begun taker events v)).1.updatedTaker =
      lastUpdate (looped db tradeIds taker events v entries).1 := by
  rw [executeMatchOn_eq, updatedTaker_finish (own_looped h)]

theorem listing_executeMatchOn_of_ne (hne : orderId ≠ taker.id) :
    listing (executeMatchOn db tradeIds entries (begun taker events v)).2 pair side orderId =
      listing (looped db tradeIds taker events v entries).2 pair side orderId := by
  have hresting : (looped db tradeIds taker events v entries).1.restingEntry.orderId = taker.id :=
    congrArg Order.id takerOrder_looped
  rw [executeMatchOn_eq]
  split
  · rfl
  · exact listing_addOrder_of_ne (hresting ▸ hne)

/-- A taker of which some is left is listed with it. -/
theorem listing_executeMatchOn (h : OpposingList db taker entries) :
    listing (executeMatchOn db tradeIds entries (begun taker events v)).2 taker.pair taker.side
        taker.id =
      if (lastUpdate (looped db tradeIds taker events v entries).1).remainingAmount = 0 then
        listing v taker.pair taker.side taker.id
      else (some (bookScore (entryOf (lastUpdate (looped db tradeIds taker events v entries).1))),
        some (entryOf (lastUpdate (looped db tradeIds taker events v entries).1))) := by
  have htakerOrder : (looped db tradeIds taker events v entries).1.takerOrder = taker :=
    takerOrder_looped
  have hnone : taker.id ∉ (reachable taker entries).map OrderbookEntry.orderId := by
    intro hmem
    obtain ⟨maker, hmaker, hid⟩ := List.mem_map.mp hmem
    exact h.ne_taker (mem_of_reachable hmaker).1 hid
  have hentry : (looped db tradeIds taker events v entries).1.restingEntry =
      entryOf (lastUpdate (looped db tradeIds taker events v entries).1) := rfl
  have hremaining : (lastUpdate (looped db tradeIds taker events v entries).1).remainingAmount =
      (looped db tradeIds taker events v entries).1.currentTakerRemaining := rfl
  rw [executeMatchOn_eq, hremaining]
  by_cases hfilled : (looped db tradeIds taker events v entries).1.currentTakerRemaining = 0
  · rw [if_pos hfilled, if_pos hfilled]
    exact listing_fillAll_of_notMem hnone
  · have hplace : listing ((looped db tradeIds taker events v entries).2.addOrder
        (looped db tradeIds taker events v entries).1.restingEntry)
          (looped db tradeIds taker events v entries).1.takerOrder.pair
          (looped db tradeIds taker events v entries).1.takerOrder.side
          (looped db tradeIds taker events v entries).1.takerOrder.id = _ := listing_addOrder
    rw [htakerOrder] at hplace
    rw [if_neg hfilled, if_neg hfilled, ← hentry]
    exact hplace

/-! ### The match -/

theorem executedBy_lastUpdate (htaker : 0 ≤ taker.remainingAmount) :
    ExecutedBy taker (volume (looped db tradeIds taker events v entries).1.trades)
      (lastUpdate (looped db tradeIds taker events v entries).1) := by
  have hvolume : (looped db tradeIds taker events v entries).1.currentTakerFilled -
      volume (looped db tradeIds taker events v entries).1.trades = taker.filledAmount - 0 :=
    volume_fillAll
  have htotal : (looped db tradeIds taker events v entries).1.currentTakerFilled +
      (looped db tradeIds taker events v entries).1.currentTakerRemaining =
        taker.filledAmount + taker.remainingAmount := filled_add_remaining_fillAll
  have hremaining : (looped db tradeIds taker events v entries).1.currentTakerRemaining =
      if Outlasts taker.remainingAmount (reachable taker entries) then
        taker.remainingAmount - supply (reachable taker entries) else 0 := fillAll_remaining htaker
  refine ⟨?_, htotal, ?_, ?_⟩
  · change (looped db tradeIds taker events v entries).1.currentTakerFilled = _
    omega
  · change 0 ≤ (looped db tradeIds taker events v entries).1.currentTakerRemaining
    rw [hremaining]
    split
    · next hlast =>
      have hlt := hlast.supply_lt
      omega
    · exact le_rfl
  · rw [lastUpdate, takerOrder_looped]
    rfl

/-- A trade of the taker with a maker in reach. -/
theorem tradeBetween_matchedTrade {tradeId : Uuid} (hquantity : 0 < quantity)
    (hother : e.userId ≠ taker.userId)
    (hlimit : WithinLimit taker.side taker.price e.price) :
    TradeBetween taker e (matchedTrade taker e quantity tradeId) where
  makerOrder_eq := rfl
  makerUser_eq := rfl
  takerOrder_eq := rfl
  takerUser_eq := rfl
  price_eq := rfl
  quantity_pos := hquantity
  taker_limit := hlimit
  maker_limit := withinLimit_self
  buyer_limit := by
    simp only [matchedTrade]
    split
    · next hbuy =>
      rw [hbuy] at hlimit
      exact hlimit
    · exact le_rfl
  users_ne := by
    simp only [matchedTrade]
    split
    · exact hother.symm
    · exact hother

theorem executedBy_filledBy (hle : quantity ≤ row.remainingAmount) :
    ExecutedBy row quantity (filledBy row quantity) := by
  refine ⟨rfl, ?_, ?_, rfl⟩
  · change row.filledAmount + quantity + (row.remainingAmount - quantity) = _
    ring
  · change 0 ≤ row.remainingAmount - quantity
    omega

/-- An entry of the list after the match. -/
theorem makerExecuted_executeMatchOn (h : OpposingList db taker entries)
    (htaker : 0 < taker.remainingAmount) (he : e ∈ entries) : ∃ row updated,
      (UnitOfWork.start taker).findById db e.orderId = some row ∧
        (executeMatchOn db tradeIds entries (begun taker events v)).1.findById db e.orderId =
          some updated ∧
        MakerExecuted v (executeMatchOn db tradeIds entries (begun taker events v)).2
          (tradedWith (executeMatchOn db tradeIds entries (begun taker events v)).1.trades
            e.orderId) e row updated := by
  obtain ⟨row, hrow, hentry⟩ := h.agree e he
  have hne := h.ne_taker he
  have hoffered : row.remainingAmount = e.remainingAmount := by rw [← hentry]; rfl
  have htrades : (executeMatchOn db tradeIds entries (begun taker events v)).1.trades =
      (looped db tradeIds taker events v entries).1.trades := by rw [executeMatchOn_eq]; rfl
  have hfound : (executeMatchOn db tradeIds entries (begun taker events v)).1.findById db
      e.orderId = (looped db tradeIds taker events v entries).1.findById db e.orderId :=
    (findById_executeMatchOn h).trans (if_neg hne)
  have hlisting : listing (executeMatchOn db tradeIds entries (begun taker events v)).2 e.pair
      e.side e.orderId = listing (looped db tradeIds taker events v entries).2 e.pair e.side
        e.orderId := listing_executeMatchOn_of_ne hne
  rw [htrades, hfound]
  rcases entry_looped h htaker tradeIds events v he hrow hentry with
    ⟨htraded, hupdated, hlisted⟩ | ⟨-, hlast, quantity, hquantity, htraded, hupdated, hlisted⟩
  · refine ⟨row, row, hrow, hupdated, ?_⟩
    rw [htraded]
    refine ⟨⟨(add_zero _).symm, rfl, ?_, rfl⟩, fun _ => ⟨rfl, hlisting.trans hlisted⟩,
      fun hsome => absurd rfl hsome⟩
    exact hoffered ▸ (h.remaining_pos e he).le
  · refine ⟨row, filledBy row quantity, hrow, hupdated, ?_⟩
    have hle : quantity ≤ row.remainingAmount := by
      rw [hquantity, hoffered]
      exact min_le_right _ _
    have hleft : (filledBy row quantity).remainingAmount = e.remainingAmount - quantity := by
      rw [← hoffered]
      rfl
    rw [htraded]
    refine ⟨?_, fun hnone => absurd hnone (by simp), fun _ => ⟨rfl, ?_⟩⟩
    · rw [List.sum_singleton]
      exact executedBy_filledBy hle
    · rw [hleft]
      exact hlisting.trans hlisted

theorem trades_executeMatchOn :
    (executeMatchOn db tradeIds entries (begun taker events v)).1.trades =
      (looped db tradeIds taker events v entries).1.trades := by
  rw [executeMatchOn_eq]
  rfl

theorem exhausted_executeMatchOn (h : OpposingList db taker entries) (hne : orderId ≠ taker.id)
    (hexhausted : Exhausted db (looped db tradeIds taker events v entries).1 orderId) :
    Exhausted db (executeMatchOn db tradeIds entries (begun taker events v)).1 orderId := by
  obtain ⟨updated, hupdated, hzero⟩ := hexhausted
  exact ⟨updated, (findById_executeMatchOn h).trans ((if_neg hne).trans hupdated), hzero⟩

/-- The entries in front of one that is traded with are exhausted or the taker's own. -/
theorem exhausted_before (h : OpposingList db taker entries) (htaker : 0 < taker.remainingAmount)
    {before after : List OrderbookEntry} (hentries : entries = before ++ e :: after)
    (htraded : tradedWith (looped db tradeIds taker events v entries).1.trades e.orderId ≠ [])
    {e' : OrderbookEntry} (he' : e' ∈ before) (hother : e'.userId ≠ taker.userId) :
    Exhausted db (looped db tradeIds taker events v entries).1 e'.orderId := by
  have he : e ∈ entries := hentries ▸ List.mem_append_right _ List.mem_cons_self
  obtain ⟨row, hrow, hentry⟩ := h.agree e he
  rcases entry_looped h htaker tradeIds events v he hrow hentry with ⟨hnone, -⟩ | ⟨hreach, hlast, -⟩
  · exact absurd hnone htraded
  · have hfront : e' ∈ ahead (reachable taker entries) e := by
      have hids := h.distinct
      rw [hentries] at hids hreach ⊢
      rw [ahead_reachable hids hreach]
      exact List.mem_filter.mpr ⟨he', by simpa using hother⟩
    obtain ⟨hlast', hlt⟩ := hlast.of_ahead hfront
    have hreach' : e' ∈ reachable taker entries := (List.takeWhile_prefix _).subset hfront
    exact exhausted_looped h htaker hreach' hlast' hlt.le

/-- A taker of which some is left has exhausted every maker within its limit. -/
theorem exhausted_within (h : OpposingList db taker entries) (htaker : 0 < taker.remainingAmount)
    (hleft : (looped db tradeIds taker events v entries).1.currentTakerRemaining ≠ 0)
    (he : e ∈ entries) (hother : e.userId ≠ taker.userId)
    (hlimit : WithinLimit taker.side taker.price e.price) :
    Exhausted db (looped db tradeIds taker events v entries).1 e.orderId := by
  have hremaining : (looped db tradeIds taker events v entries).1.currentTakerRemaining =
      if Outlasts taker.remainingAmount (reachable taker entries) then
        taker.remainingAmount - supply (reachable taker entries) else 0 :=
    fillAll_remaining htaker.le
  have hlast : Outlasts taker.remainingAmount (reachable taker entries) := by
    by_contra hnot
    exact hleft (hremaining.trans (if_neg hnot))
  have hreach := mem_reachable h.sorted he hother hlimit
  obtain ⟨hlast', hlt⟩ := hlast.of_mem hreach
  exact exhausted_looped h htaker hreach hlast' hlt.le

/-- The rows returned are those of the makers of the trades. -/
theorem returned_executeMatchOn (h : OpposingList db taker entries)
    (htaker : 0 < taker.remainingAmount) :
    Returned db (executeMatchOn db tradeIds entries (begun taker events v)).1 := by
  have hloop : Returned db (looped db tradeIds taker events v entries).1 := by
    refine returned_fillAll ⟨rfl⟩ (nodup_reachable h.distinct) (fun maker hmaker => ?_)
      fun _ htrade => absurd htrade List.not_mem_nil
    obtain ⟨row, hrow, -⟩ := h.agree maker (mem_of_reachable hmaker).1
    exact Option.isSome_iff_exists.mpr ⟨row, hrow⟩
  have hupdated : (executeMatchOn db tradeIds entries (begun taker events v)).1.makerOrdersUpdated =
      (looped db tradeIds taker events v entries).1.makerOrdersUpdated := by
    rw [executeMatchOn_eq]
    rfl
  refine ⟨?_⟩
  rw [hupdated, trades_executeMatchOn, hloop.rows_eq]
  refine List.map_congr_left fun trade htrade => ?_
  rcases mem_trades_fillAll htaker.le
      (fun maker hmaker => h.remaining_pos maker (mem_of_reachable hmaker).1) htrade with
    hnone | ⟨maker, hmaker, _, _, -, rfl⟩
  · exact absurd hnone List.not_mem_nil
  · exact ((findById_executeMatchOn h).trans
      (if_neg (h.ne_taker (mem_of_reachable hmaker).1))).symm

/-- Matching conserves the quantities of the taker and the makers, trades at the makers' prices
and within all limits, goes through the list in order and leaves nothing that crosses. -/
theorem executeMatch_greedy (db : OrdersDb) (tradeIds : ℕ → Uuid) (taker : Order)
    (events : List OutboxEvent) (v : Valkey) (entries : List OrderbookEntry)
    (htaker : 0 < taker.remainingAmount) (h : OpposingList db taker entries) :
    MatchedGreedily db taker v entries
      (executeMatchOn db tradeIds entries (begun taker events v)) where
  taker_row := by
    rw [findById_executeMatchOn h, if_pos rfl, updatedTaker_executeMatchOn h]
  taker_executed := by
    rw [updatedTaker_executeMatchOn h, trades_executeMatchOn]
    exact executedBy_lastUpdate htaker.le
  taker_status := by
    rw [updatedTaker_executeMatchOn h]
    rfl
  taker_listed := by
    rw [updatedTaker_executeMatchOn h]
    exact listing_executeMatchOn h
  makers e he := makerExecuted_executeMatchOn h htaker he
  makers_returned := (returned_executeMatchOn h htaker).rows_eq
  others orderId hne hnot := by
    have hreach : orderId ∉ (reachable taker entries).map OrderbookEntry.orderId := fun hmem => by
      obtain ⟨maker, hmaker, rfl⟩ := List.mem_map.mp hmem
      exact hnot (List.mem_map_of_mem (mem_of_reachable hmaker).1)
    refine ⟨?_, fun pair side => ?_⟩
    · exact (findById_executeMatchOn h).trans
        ((if_neg hne).trans (findById_fillAll_of_notMem hreach))
    · exact (listing_executeMatchOn_of_ne hne).trans (listing_fillAll_of_notMem hreach)
  trades_sound trade htrade := by
    rw [trades_executeMatchOn] at htrade
    rcases mem_trades_fillAll htaker.le
        (fun maker hmaker => h.remaining_pos maker (mem_of_reachable hmaker).1) htrade with
      hnone | ⟨maker, hmaker, quantity, tradeId, hquantity, rfl⟩
    · exact absurd hnone List.not_mem_nil
    · obtain ⟨hmem, hother, hlimit⟩ := mem_of_reachable hmaker
      exact ⟨maker, hmem, tradeBetween_matchedTrade hquantity hother hlimit⟩
  in_order before e after hentries htraded e' he' := by
    rw [trades_executeMatchOn] at htraded
    by_cases hother : e'.userId = taker.userId
    · exact Or.inl hother
    · have hmem : e' ∈ entries := hentries ▸ List.mem_append_left _ he'
      exact Or.inr (exhausted_executeMatchOn h (h.ne_taker hmem)
        (exhausted_before h htaker hentries htraded he' hother))
  greedy hleft e he hother hlimit := by
    rw [updatedTaker_executeMatchOn h] at hleft
    exact exhausted_executeMatchOn h (h.ne_taker he)
      (exhausted_within h htaker hleft he hother hlimit)

/-! ### A buyer with an ask of its own -/

/-- An ask for units of the last decimal place. -/
def ask (orderId userId : Uuid) (price remainingAmount : ℤ) : OrderbookEntry :=
  ⟨orderId, userId, ⟨.eth, .usdt⟩, .sell, .limit, price, 4, remainingAmount⟩

/-- Two orders are within a limit of 100, and the last one is not. -/
def asks : List OrderbookEntry :=
  [ask "a" "first" 99 2, ask "own" "buyer" 99 1, ask "b" "second" 100 4, ask "c" "first" 101 1]

/-- The row of an ask. -/
def askRow (e : OrderbookEntry) : Order :=
  ⟨e.orderId, e.userId, e.pair, e.side, e.type, e.price, e.amount, e.amount - e.remainingAmount,
    e.remainingAmount, .opened, e.orderId⟩

def buyer : Order :=
  ⟨"t", "buyer", ⟨.eth, .usdt⟩, .buy, .limit, 100, 5, 0, 5, .opened, "t"⟩

def askDb : OrdersDb := ⟨asks.map askRow, [], []⟩

theorem opposingList_asks : OpposingList askDb buyer asks where
  distinct := by decide +kernel
  side_eq := by decide +kernel
  remaining_pos := by decide +kernel
  agree e he := by
    have hrows : ∀ e ∈ asks, (UnitOfWork.start buyer).findById askDb e.orderId =
        some (askRow e) := by decide +kernel
    exact ⟨askRow e, hrows e he, rfl⟩
  sorted := by decide +kernel

theorem executeMatch_greedy_asks : MatchedGreedily askDb buyer (Valkey.empty.rehydrate asks) asks
    (executeMatchOn askDb (fun _ => "trade") asks
      (begun buyer [] (Valkey.empty.rehydrate asks))) :=
  executeMatch_greedy askDb (fun _ => "trade") buyer [] (Valkey.empty.rehydrate asks) asks
    (by decide) opposingList_asks

/-- The buyer passes over its own ask and takes three of the next one. -/
example : (executeMatchOn askDb (fun _ => "trade") asks
    (begun buyer [] (Valkey.empty.rehydrate asks))).1.trades.map
      (fun trade => (trade.makerOrderId, trade.price, trade.quantity)) =
    [("a", 99, 2), ("b", 100, 3)] := by decide +kernel

end EtherTrade.OrderMatchLaws
