import EtherTrade.OpenOrders
import EtherTrade.OrderBookStream
import EtherTrade.UncrossedBookLaws

/-!
# The levels of the book in a run

The resting orders of a store are those of its rows, with a place in the book that never
changes. A call moves the numbers of the book forward, and the gateway sends at most one
update for it.
-/

namespace EtherTrade.OrderBookLevels

open DecimalNumbers KeyedRows GroupedTotals AccountsSchema OrdersSchema OrderBook MatchingEngine
open OrdersTransactions OrdersTransactionInvariants OrdersTransactionSteps SequentialOrders
open RestingOrders MatchingLoop OpenOrders UncrossedBookLaws OrderBookStream SortedSets
open TradeSettlement (TradingSymbol)

variable {db : OrdersDb} {v v' : Valkey} {book : Book} {pair : TradingSymbol} {side : OrderSide}
  {price : ℤ} {depth : ℕ} {e : OrderbookEntry} {orderId : Uuid} {order row : Order}
  {w : UnitOfWork} {tradeIds : ℕ → Uuid}

/-! ### The levels of a book -/

/-- The resting orders of one side, the best prices first. -/
def sideOrders (v : Valkey) (pair : TradingSymbol) (side : OrderSide) : List OrderbookEntry :=
  opposingOrders v pair side.opposing

/-- The level at a price: what rests there in total, if anything does. -/
def levels (v : Valkey) (pair : TradingSymbol) : LevelBook := fun side =>
  totalAt OrderbookEntry.price OrderbookEntry.remainingAmount (sideOrders v pair side)

theorem opposing_opposing (side : OrderSide) : side.opposing.opposing = side := by
  cases side <;> rfl

theorem opposingOrderIds_perm :
    (opposingOrderIds v pair side.opposing).Perm (v.orderbooks pair side).ranked := by
  unfold opposingOrderIds
  rw [opposing_opposing]
  split
  · exact List.reverse_perm _
  · exact .refl _

/-- A read that covers the side has its orders. -/
theorem sideOrderIds_of_covers (h : CoversSide v pair depth side) :
    sideOrderIds v pair side depth = opposingOrderIds v pair side.opposing := by
  have hids : sideOrderIds v pair side depth = (opposingOrderIds v pair side.opposing).take
      (if depth = 0 then (v.orderbooks pair side).entries.length else depth * 2) := by
    cases side <;> rfl
  have hlength : (opposingOrderIds v pair side.opposing).length =
      (v.orderbooks pair side).entries.length := by
    rw [opposingOrderIds_perm.length_eq, (SortedSet.ranked_perm _).length_eq, List.length_map]
  have hcovered : (v.orderbooks pair side).entries.length ≤ depth * 2 := by
    simpa [allOrderIds] using h.1
  rw [hids]
  refine List.take_of_length_le ?_
  split <;> omega

theorem lookup_priceLevels (orderIds : List Uuid) :
    (lookup OrderBookLevel.price (priceLevels v orderIds) price).map OrderBookLevel.amount =
      totalAt OrderbookEntry.price OrderbookEntry.remainingAmount
        (orderIds.filterMap v.getOrderDetails) price := by
  let value : OrderbookEntry → ℤ × ℕ := fun entry => (entry.remainingAmount, 1)
  let entries := orderIds.filterMap v.getOrderDetails
  have hlevel : lookup OrderBookLevel.price (priceLevels v orderIds) price =
      (lookup Prod.fst (totals OrderbookEntry.price value entries) price).map
        fun level => ⟨level.1, level.2.1, level.2.2⟩ := by
    rw [priceLevels, lookup, List.find?_map]
    rfl
  calc (lookup OrderBookLevel.price (priceLevels v orderIds) price).map OrderBookLevel.amount
      = ((lookup Prod.fst (totals OrderbookEntry.price value entries) price).map
          Prod.snd).map (AddMonoidHom.fst ℤ ℕ) := by
        rw [hlevel, Option.map_map, Option.map_map]
        rfl
    _ = totalAt OrderbookEntry.price OrderbookEntry.remainingAmount entries price := by
        rw [lookup_totals, map_totalAt]
        rfl

/-- A snapshot that covers the book has its levels. -/
theorem levelsOf_getOrderBook (h : Covers v pair depth) :
    levelsOf (getOrderBook v pair depth) = levels v pair := by
  have hside (side : OrderSide) (price : ℤ) (hcovers : CoversSide v pair depth side) :
      (lookup OrderBookLevel.price (aggregateLevels v (sideOrderIds v pair side depth) depth)
        price).map OrderBookLevel.amount = levels v pair side price := by
    rw [aggregateLevels, List.take_of_length_le (hcovers.2.trans (le_max_right _ _)),
      lookup_priceLevels, sideOrderIds_of_covers hcovers]
    rfl
  funext side price
  cases side with
  | buy => exact hside .buy price h.1
  | sell => exact hside .sell price h.2

theorem mem_sideOrders (h : Holds v book) : e ∈ sideOrders v pair side ↔
    book e.orderId = some e ∧ e.pair = pair ∧ e.side = side := by
  rw [sideOrders, h.mem_opposingOrders, opposing_opposing]

theorem nodup_sideOrders (h : Holds v book) : (sideOrders v pair side).Nodup :=
  (nodup_opposingOrders h.namesKept).of_map _

/-- The levels of a store that holds a part of a book are those of that part. -/
theorem levels_eq {book' : Book} (h : Holds v book) (h' : Holds v' book')
    {kept : OrderbookEntry → Bool} (hkept : ∀ e, e.pair = pair → e.side = side →
      (book' e.orderId = some e ↔ book e.orderId = some e ∧ kept e = true)) :
    levels v' pair side = totalAt OrderbookEntry.price OrderbookEntry.remainingAmount
      ((sideOrders v pair side).filter kept) := by
  funext price
  refine totalAt_perm ((List.perm_ext_iff_of_nodup (nodup_sideOrders h')
    ((nodup_sideOrders h).filter _)).mpr fun e => ?_)
  rw [List.mem_filter, mem_sideOrders h', mem_sideOrders h]
  constructor
  · rintro ⟨he, hpair, hside⟩
    obtain ⟨he, hkept⟩ := (hkept e hpair hside).mp he
    exact ⟨⟨he, hpair, hside⟩, hkept⟩
  · rintro ⟨⟨he, hpair, hside⟩, hk⟩
    exact ⟨(hkept e hpair hside).mpr ⟨he, hk⟩, hpair, hside⟩

/-- The reported total counts the orders of its level: among the first orders of the side they
are those whose price is the level's price after its way through a binary number, and behind
them there are none. -/
def TotalExact (v : Valkey) (pair : TradingSymbol) (side : OrderSide) (price : ℤ) : Prop :=
  (∀ orderId ∈ (v.orderbooks pair side).zrange 501 false, ∀ e ∈ v.getOrderDetails orderId,
      e.price / scale = ofNumber (toNumber (price / scale)) ↔ e.price = price) ∧
    ∀ orderId ∈ (v.orderbooks pair side).ranked.drop 501, ∀ e ∈ v.getOrderDetails orderId,
      e.price ≠ price

instance : Decidable (TotalExact v pair side price) :=
  inferInstanceAs (Decidable ((∀ orderId ∈ (v.orderbooks pair side).zrange 501 false,
      ∀ e ∈ v.getOrderDetails orderId,
        e.price / scale = ofNumber (toNumber (price / scale)) ↔ e.price = price) ∧
    ∀ orderId ∈ (v.orderbooks pair side).ranked.drop 501, ∀ e ∈ v.getOrderDetails orderId,
      e.price ≠ price))

/-- An exact total is what rests at the price. -/
theorem getLevelTotalQuantity_of_exact (h : TotalExact v pair side price) :
    v.getLevelTotalQuantity pair side price =
      (((sideOrders v pair side).filter fun e => e.price = price).map
        OrderbookEntry.remainingAmount).sum := by
  let ranked := (v.orderbooks pair side).ranked
  have hfirst : ((ranked.take 501).filterMap v.getOrderDetails).filter
        (fun e => e.price / scale = ofNumber (toNumber (price / scale))) =
      ((ranked.take 501).filterMap v.getOrderDetails).filter fun e => e.price = price := by
    refine List.filter_congr fun e he => ?_
    obtain ⟨orderId, hmem, hdetails⟩ := List.mem_filterMap.mp he
    exact decide_eq_decide.mpr (h.1 orderId hmem e hdetails)
  have hrest : ((ranked.drop 501).filterMap v.getOrderDetails).filter (fun e => e.price = price) =
      [] := by
    refine List.filter_eq_nil_iff.mpr fun e he => ?_
    obtain ⟨orderId, hmem, hdetails⟩ := List.mem_filterMap.mp he
    simpa using h.2 orderId hmem e hdetails
  have hall : (ranked.filterMap v.getOrderDetails).filter (fun e => e.price = price) =
      ((ranked.take 501).filterMap v.getOrderDetails).filter
        fun e => e.price / scale = ofNumber (toNumber (price / scale)) := by
    conv_lhs => rw [← List.take_append_drop 501 ranked]
    rw [List.filterMap_append, List.filter_append, hrest, List.append_nil, hfirst]
  have hperm : (sideOrders v pair side).Perm (ranked.filterMap v.getOrderDetails) :=
    opposingOrderIds_perm.filterMap _
  rw [((hperm.filter _).map _).sum_eq, hall]
  rfl

/-! ### Rows keep their places -/

/-- A version of a row: the place in the book is the same, and the status one that an order of
this service has. -/
structure Version (row row' : Order) : Prop where
  pair_eq : row'.pair = row.pair
  side_eq : row'.side = row.side
  price_eq : row'.price = row.price
  status : row.status ∈ OrderStatus.cancellable ++ OrderStatus.terminal →
    row'.status ∈ OrderStatus.cancellable ++ OrderStatus.terminal

/-- Every row has a version, and there are no others. -/
structure Versions (find find' : Uuid → Option Order) : Prop where
  found : ∀ k row, find k = some row → ∃ row', find' k = some row' ∧ Version row row'
  missing : ∀ k, find k = none → find' k = none

theorem Version.refl (row : Order) : Version row row := ⟨rfl, rfl, rfl, id⟩

theorem Version.trans {row' row'' : Order} (h : Version row row') (h' : Version row' row'') :
    Version row row'' :=
  ⟨h'.pair_eq.trans h.pair_eq, h'.side_eq.trans h.side_eq, h'.price_eq.trans h.price_eq,
    h'.status ∘ h.status⟩

namespace Versions

variable {find find' find'' : Uuid → Option Order}

theorem refl (find : Uuid → Option Order) : Versions find find :=
  ⟨fun _ row h => ⟨row, h, .refl row⟩, fun _ h => h⟩

theorem trans (h : Versions find find') (h' : Versions find' find'') : Versions find find'' where
  found k row hrow := by
    obtain ⟨row', hrow', hversion⟩ := h.found k row hrow
    obtain ⟨row'', hrow'', hversion'⟩ := h'.found k row' hrow'
    exact ⟨row'', hrow'', hversion.trans hversion'⟩
  missing k hnone := h'.missing k (h.missing k hnone)

/-- Every version is one of a row. -/
theorem exists_row (h : Versions find find') {k : Uuid} {row' : Order} (hrow' : find' k = some row') :
    ∃ row, find k = some row ∧ Version row row' := by
  cases hrow : find k with
  | none =>
    rw [h.missing k hrow] at hrow'
    cases hrow'
  | some row =>
    obtain ⟨row'', hrow'', hversion⟩ := h.found k row hrow
    rw [hrow'] at hrow''
    obtain rfl := Option.some.inj hrow''
    exact ⟨row, rfl, hversion⟩

end Versions

/-- An update makes a version of the row it finds. -/
theorem versions_write {filledAmount remainingAmount : ℤ} {status : OrderStatus}
    (hstatus : status ∈ OrderStatus.cancellable ++ OrderStatus.terminal) :
    Versions (w.findById db)
      ((w.write (w.updateExecution db orderId filledAmount remainingAmount status)).findById db) := by
  have hfind (k : Uuid) :
      (w.write (w.updateExecution db orderId filledAmount remainingAmount status)).findById db k =
        if k = orderId then (w.findById db k).map
          fun row => UnitOfWork.executed row filledAmount remainingAmount status
        else w.findById db k := by
    rw [UnitOfWork.findById, lookup_write_updateExecution]
    split
    · next hk =>
      subst hk
      rw [UnitOfWork.updateExecution, UnitOfWork.findById]
      cases lookup Order.id w.rows k with
      | some row => rfl
      | none => cases db.findById k <;> rfl
    · rfl
  refine ⟨fun k row hrow => ?_, fun k hnone => ?_⟩
  · rw [hfind, hrow]
    split
    · exact ⟨_, rfl, rfl, rfl, rfl, fun _ => hstatus⟩
    · exact ⟨row, rfl, .refl row⟩
  · rw [hfind, hnone]
    split <;> rfl

theorem makerStatus_regular (w : UnitOfWork) (maker : OrderbookEntry) :
    w.makerStatus maker ∈ OrderStatus.cancellable ++ OrderStatus.terminal := by
  unfold UnitOfWork.makerStatus
  split <;> decide

theorem takerStatus_regular (w : UnitOfWork) :
    w.takerStatus ∈ OrderStatus.cancellable ++ OrderStatus.terminal := by
  unfold UnitOfWork.takerStatus
  split
  · decide
  · split <;> decide

theorem versions_matchOrders (makers : List OrderbookEntry) (m : Matching) :
    Versions (m.1.findById db) ((matchOrders db tradeIds makers m).1.findById db) := by
  induction makers generalizing m with
  | nil => exact .refl _
  | cons maker makers ih =>
    rw [matchOrders]
    split
    · exact .refl _
    · split
      · exact ih m
      · split
        · have hfill : Versions (m.1.findById db) ((fillMaker db tradeIds maker m).1.findById db) :=
            versions_write (makerStatus_regular m.1 maker)
          exact hfill.trans (ih _)
        · exact .refl _

/-- The rows after a new order is placed are versions of those when it is inserted. -/
theorem versions_placeOrder : Versions ((UnitOfWork.start order).findById db)
    ((placeOrder db tradeIds order v).1.findById db) := by
  obtain ⟨events, valkey, hplace, -⟩ := @placeOrder_eq db tradeIds v order
  let m := matchOrders db tradeIds
    ((opened order v).2.getBestOpposingOrders order.pair order.side) (opened order v)
  have hmatched : Versions ((UnitOfWork.start order).findById db) (m.1.findById db) :=
    versions_matchOrders _ (opened order v)
  have hfinished : Versions (m.1.findById db)
      ((m.1.write (m.1.updateExecution db m.1.takerOrder.id m.1.currentTakerFilled
        m.1.currentTakerRemaining m.1.takerStatus)).findById db) :=
    versions_write (takerStatus_regular m.1)
  rw [hplace]
  exact hmatched.trans hfinished

theorem findById_start (k : Uuid) : (UnitOfWork.start order).findById db k =
    if k = order.id then some order else db.findById k := by
  by_cases hk : k = order.id
  · simp [UnitOfWork.findById, UnitOfWork.start, lookup, hk]
  · simp [UnitOfWork.findById, UnitOfWork.start, lookup, hk, Ne.symm hk]

/-! ### Orders in the book -/

/-- Each order in the book has something left, and is where its row says. -/
structure Mirrors (db : OrdersDb) (v : Valkey) : Prop where
  holds : Holds v v.getOrderDetails
  rows : ∀ orderId e, v.getOrderDetails orderId = some e → 0 < e.remainingAmount ∧
    ∃ row, db.findById orderId = some row ∧ e.pair = row.pair ∧ e.side = row.side ∧
      e.price = row.price
  statuses : ∀ orderId row, db.findById orderId = some row →
    row.status ∈ OrderStatus.cancellable ++ OrderStatus.terminal

theorem details_eq (h : Holds v book) : v.getOrderDetails = book :=
  funext fun _ => h.getOrderDetails

theorem mirrors_empty : Mirrors .empty .empty where
  holds := holds_empty
  rows _ _ h := (Option.some_ne_none _ h.symm).elim
  statuses _ _ h := (Option.some_ne_none _ h.symm).elim

/-- An order without a row is not in the book. -/
theorem Mirrors.missing (h : Mirrors db v) (hfresh : db.findById orderId = none) :
    v.getOrderDetails orderId = none := by
  cases hdetails : v.getOrderDetails orderId with
  | none => rfl
  | some e =>
    obtain ⟨-, row, hrow, -⟩ := h.rows orderId e hdetails
    rw [hfresh] at hrow
    cases hrow

/-- The loop leaves something of every order that it leaves in the book. -/
theorem bookAfter_pos {quantity : ℤ} {makers : List OrderbookEntry}
    (hpos : ∀ k e, book k = some e → 0 < e.remainingAmount) (k : Uuid) (e : OrderbookEntry)
    (h : bookAfter quantity makers book k = some e) : 0 < e.remainingAmount := by
  induction makers generalizing quantity book with
  | nil => exact hpos k e h
  | cons maker makers ih =>
    rw [bookAfter] at h
    split at h
    · exact hpos k e h
    · refine ih (fun k' e' he' => ?_) h
      rw [takeFrom, Function.update_apply] at he'
      split at he'
      · split at he'
        · cases he'
        · next hleft =>
          obtain rfl := Option.some.inj he'
          have hle : min quantity maker.remainingAmount ≤ maker.remainingAmount := min_le_right _ _
          change 0 < maker.remainingAmount - min quantity maker.remainingAmount
          omega
      · exact hpos k' e' he'

theorem mirrors_placeOrder (h : Mirrors db v) (hfresh : db.findById order.id = none)
    (hremaining : 0 ≤ order.remainingAmount) (hstatus : order.status = .opened) :
    Mirrors (db.install (placeOrder db tradeIds order v).1.rows
      (placeOrder db tradeIds order v).1.outboxList) (placeOrder db tradeIds order v).2 := by
  have hnew := h.missing hfresh
  have hholds := @holds_placeOrder db tradeIds v _ order h.holds hnew hremaining
  have hbook := details_eq hholds
  have hfind : (db.install (placeOrder db tradeIds order v).1.rows
      (placeOrder db tradeIds order v).1.outboxList).findById =
        (placeOrder db tradeIds order v).1.findById db := funext fun _ => findById_install
  have hversions := @versions_placeOrder db v order tradeIds
  have hplaced : ∀ k e, placedBook v order v.getOrderDetails k = some e →
      0 < e.remainingAmount ∧ ∃ row, (UnitOfWork.start order).findById db k = some row ∧
        e.pair = row.pair ∧ e.side = row.side ∧ e.price = row.price := by
    intro k e he
    have hrest (he : bookAfter order.remainingAmount (makersFor v order) v.getOrderDetails k = some e) :
        0 < e.remainingAmount ∧ ∃ row, (UnitOfWork.start order).findById db k = some row ∧
          e.pair = row.pair ∧ e.side = row.side ∧ e.price = row.price := by
      have hpos := bookAfter_pos (fun k e he => (h.rows k e he).1) k e he
      obtain ⟨before, hbefore, heq⟩ := bookAfter_eq_some (nodup_makersFor h.holds.namesKept order)
        (current_makersFor h.holds) he
      obtain ⟨-, row, hrow, hpair, hside, hprice⟩ := h.rows k before hbefore
      have hk : k ≠ order.id := fun hk => by
        rw [hk, hfresh] at hrow
        cases hrow
      rw [heq]
      exact ⟨hpos, row, by rw [findById_start, if_neg hk, hrow], hpair, hside, hprice⟩
    unfold placedBook at he
    split at he
    · next hlast =>
      rw [Function.update_apply] at he
      split at he
      · next hk =>
        obtain rfl := Option.some.inj he
        have hlt := hlast.supply_lt
        exact ⟨by simpa using hlt, order, by rw [findById_start, if_pos hk], rfl, rfl, rfl⟩
      · exact hrest he
    · exact hrest he
  refine ⟨hbook ▸ hholds, fun k e he => ?_, fun k row' hrow' => ?_⟩
  · rw [hbook] at he
    obtain ⟨hpos, row, hrow, hpair, hside, hprice⟩ := hplaced k e he
    obtain ⟨row', hrow', hversion⟩ := hversions.found k row hrow
    exact ⟨hpos, row', by rw [hfind, hrow'], hpair.trans hversion.pair_eq.symm,
      hside.trans hversion.side_eq.symm, hprice.trans hversion.price_eq.symm⟩
  · rw [hfind] at hrow'
    obtain ⟨row, hrow, hversion⟩ := hversions.exists_row hrow'
    refine hversion.status ?_
    rw [findById_start] at hrow
    split at hrow
    · obtain rfl := Option.some.inj hrow
      rw [hstatus]
      decide
    · exact h.statuses k row hrow

/-! ### Calls -/

variable {s : OrdersStore} {call : Call} {request : CreateOrderRequest} {ids : NewIds}
  {lockReply : BalanceReply} {cancelRequest : CancelOrderRequest}

theorem Mirrors.of_eq {db' : OrdersDb} (h : Mirrors db v) (horders : db'.orders = db.orders) :
    Mirrors db' v := by
  have hfind : db'.findById = db.findById := by
    funext k
    rw [OrdersDb.findById, horders, OrdersDb.findById]
  refine ⟨h.holds, ?_, ?_⟩ <;> rw [hfind]
  · exact h.rows
  · exact h.statuses

/-- What a call of each kind does: nothing to rows, events and book; place an order; or cancel
one that is open. -/
inductive CallEffect (s : OrdersStore) : Call → Prop
  | quiet {call : Call} (horders : (call.run s).db.orders = s.db.orders)
      (hevents : (call.run s).db.outboxEvents = s.db.outboxEvents)
      (hvalkey : (call.run s).valkey = s.valkey) (hbooks : callBooks s call = [s.valkey]) :
      CallEffect s call
  | placed {request : CreateOrderRequest} {ids : NewIds} {lockReply : BalanceReply} {order : Order}
      (hvalid : validateCreateOrderRequest request = none)
      (hplaced : placedOrder s request ids lockReply = some order) :
      CallEffect s (.createOrder request ids lockReply)
  | cancelled {request : CancelOrderRequest} {order : Order}
      (hfind : findCancellable s request = .ok order)
      (hopen : order.status ∈ OrderStatus.cancellable) : CallEffect s (.cancelOrder request)

theorem status_of_findCancellable (h : findCancellable s cancelRequest = .ok order) :
    order.status ∉ OrderStatus.terminal := by
  unfold findCancellable at h
  split at h
  · cases h
  · split at h
    · cases h
    · next hcancelled =>
      split at h
      · cases h
      · next hfilled =>
        obtain rfl := Except.ok.inj h
        simp [OrderStatus.terminal, hcancelled, hfilled]

theorem callEffect (h : Mirrors s.db s.valkey) (call : Call) : CallEffect s call := by
  cases call with
  | createOrder request ids lockReply =>
    cases hvalid : validateCreateOrderRequest request with
    | some exception =>
      refine .quiet ?_ ?_ ?_ ?_ <;> simp only [Call.run, callBooks, hvalid]
    | none =>
      cases hplaced : placedOrder s request ids lockReply with
      | some order => exact .placed hvalid hplaced
      | none =>
        obtain ⟨horders, hevents, hvalkey⟩ := createOrder_of_unplaced hplaced
        have hrun : (Call.createOrder request ids lockReply).run s =
            (createOrder s request ids lockReply).1 := by simp only [Call.run, hvalid]
        refine .quiet (by rw [hrun, horders]) (by rw [hrun, hevents]) (by rw [hrun, hvalkey]) ?_
        simp only [callBooks, hvalid, hplaced]
  | cancelOrder request =>
    cases hfind : findCancellable s request with
    | error exception =>
      have hrun : (Call.cancelOrder request).run s = s := by
        simp only [Call.run, cancelOrder, hfind]
      refine .quiet (by rw [hrun]) (by rw [hrun]) (by rw [hrun]) ?_
      simp only [callBooks, cancelBooks, hfind]
    | ok order =>
      have hregular := h.statuses _ _ (findById_of_findCancellable hfind).1
      exact .cancelled hfind
        ((List.mem_append.mp hregular).resolve_right (status_of_findCancellable hfind))
  | passTime ms => exact .quiet rfl rfl rfl rfl

/-- The store after an order is placed, as far as rows, events and book go. -/
theorem run_placed (hvalid : validateCreateOrderRequest request = none)
    (hplaced : placedOrder s request ids lockReply = some order) :
    let w := placeOrder (lockSent s request ids.recordId).db ids.tradeIds order s.valkey
    ((Call.createOrder request ids lockReply).run s).db.orders =
        (s.db.install w.1.rows w.1.outboxList).orders ∧
      ((Call.createOrder request ids lockReply).run s).db.outboxEvents =
        s.db.outboxEvents ++ w.1.outboxList ∧
      ((Call.createOrder request ids lockReply).run s).valkey = w.2 := by
  have hrun : (Call.createOrder request ids lockReply).run s =
      (placed (lockSent s request ids.recordId) ids order).1 := by
    simp only [Call.run, hvalid, createOrder_of_placed hplaced]
  rw [hrun]
  exact ⟨rfl, rfl, rfl⟩

/-- The number that a cancellation takes. -/
def cancelled (s : OrdersStore) (request : CancelOrderRequest) (order : Order) : Valkey × ℕ :=
  (s.valkey.removeOrder request.orderId order.pair order.side).nextSequence order.pair

/-- The event of a cancellation. -/
def cancelEvent (s : OrdersStore) (request : CancelOrderRequest) (order : Order) : OutboxEvent :=
  let (valkey, sequenceId) := cancelled s request order
  orderCancelledEvent { order with status := .cancelled }
    (valkey.getLevelTotalQuantity order.pair order.side order.price) sequenceId

theorem run_cancelled (hfind : findCancellable s cancelRequest = .ok order)
    (hopen : order.status ∈ OrderStatus.cancellable) :
    ((Call.cancelOrder cancelRequest).run s).db = s.db.install [{ order with status := .cancelled }]
        [cancelEvent s cancelRequest order] ∧
      ((Call.cancelOrder cancelRequest).run s).valkey = (cancelled s cancelRequest order).1 := by
  have hcancellable := (findById_of_findCancellable hfind).2.2
  rw [if_pos hopen] at hcancellable
  simp only [Call.run, cancelOrder, hfind, hcancellable]
  exact ⟨rfl, rfl⟩

/-- The order that a cancellation finds is the only one it takes from the book. -/
theorem holds_cancelled (h : Mirrors s.db s.valkey)
    (hfind : findCancellable s cancelRequest = .ok order) :
    Holds (cancelled s cancelRequest order).1
      (Function.update s.valkey.getOrderDetails cancelRequest.orderId none) := by
  refine (h.holds.removeOrder fun e he => ?_).nextSequence
  obtain ⟨-, row, hrow, hpair, hside, -⟩ := h.rows _ e he
  rw [(findById_of_findCancellable hfind).1] at hrow
  obtain rfl := Option.some.inj hrow
  exact ⟨hpair, hside⟩

theorem mirrors_run (h : Mirrors s.db s.valkey) (call : Call) :
    Mirrors (call.run s).db (call.run s).valkey := by
  cases callEffect h call with
  | quiet horders hevents hvalkey =>
    rw [hvalkey]
    exact h.of_eq horders
  | @placed request ids lockReply order hvalid hplaced =>
    obtain ⟨horders, -, hvalkey⟩ := run_placed hvalid hplaced
    obtain ⟨hnew, hfresh⟩ := newOrder_of_placed hplaced
    have hid := newOrder_id hnew
    have hsent : Mirrors (lockSent s request ids.recordId).db s.valkey := h.of_eq rfl
    obtain ⟨hremaining, hstatus⟩ : 0 ≤ order.remainingAmount ∧ order.status = .opened := by
      have hpositive := (validateCreateOrderRequest_eq_none hvalid).2
      simp only [newOrder, Option.bind_eq_bind, Option.bind_eq_some_iff, Option.pure_def,
        Option.some.injEq] at hnew
      obtain ⟨price, -, amount, hamount, rfl⟩ := hnew
      exact ⟨toColumn_nonneg hpositive hamount, rfl⟩
    rw [hvalkey]
    exact (mirrors_placeOrder hsent (hid ▸ hfresh) hremaining hstatus).of_eq horders
  | @cancelled request order hfind hopen =>
    obtain ⟨hdb, hvalkey⟩ := run_cancelled hfind hopen
    have hholds := holds_cancelled h hfind
    obtain ⟨hrow, hid, -⟩ := findById_of_findCancellable hfind
    have hrows (k : Uuid) : (s.db.install [{ order with status := .cancelled }]
        [cancelEvent s request order]).findById k =
          if k = request.orderId then some { order with status := .cancelled }
          else s.db.findById k := by
      rw [findById_install]
      by_cases hk : k = request.orderId
      · simp [lookup, hid, hk]
      · simp [lookup, hid, hk, Ne.symm hk]
    rw [hdb, hvalkey]
    refine ⟨details_eq hholds ▸ hholds, fun k e he => ?_, fun k row' hrow' => ?_⟩
    · rw [details_eq hholds, Function.update_apply] at he
      split at he
      · cases he
      · next hk =>
        rw [hrows, if_neg hk]
        exact h.rows k e he
    · rw [hrows] at hrow'
      split at hrow'
      · obtain rfl := Option.some.inj hrow'
        exact List.mem_append_right _ (List.mem_cons_of_mem _ List.mem_cons_self)
      · exact h.statuses k row' hrow'

/-! ### Numbers -/

theorem broadcast_append (events later : List OutboxEvent) :
    broadcast pair (events ++ later) = broadcast pair events ++ broadcast pair later := by
  rw [broadcast, List.filterMap_append, List.filter_append]
  rfl

theorem sequences_nextSequence (v : Valkey) (pair' : TradingSymbol) :
    (v.nextSequence pair').1.sequences pair =
      if pair = pair' then v.sequences pair + 1 else v.sequences pair := by
  change Function.update v.sequences pair' (v.sequences pair' + 1) pair = _
  rw [Function.update_apply]
  split
  · next heq => rw [heq]
  · rfl

theorem sequences_matchOrders (makers : List OrderbookEntry) (m : Matching) :
    (matchOrders db tradeIds makers m).2.sequences = m.2.sequences := by
  have hkept (maker : OrderbookEntry) (m : Matching) :
      (fillMaker db tradeIds maker m).2.sequences = m.2.sequences := by
    change (updateBook m.1 maker m.2).sequences = m.2.sequences
    unfold updateBook
    split <;> rfl
  rw [matchOrders_eq_fillAll]
  exact fillAll_of_kept (f := fun m => m.2.sequences) fun maker _ m => hkept maker m

/-- Reporting trades takes numbers, and adds no event that updates a level. -/
theorem reportTrades_numbers (trades : List MatchedTrade) (m : Matching) :
    m.2.sequences pair ≤ (reportTrades trades m).2.sequences pair ∧
      broadcast pair (reportTrades trades m).1.outboxList = broadcast pair m.1.outboxList := by
  induction trades generalizing m with
  | nil => exact ⟨le_rfl, rfl⟩
  | cons trade trades ih =>
    obtain ⟨hle, hevents⟩ := ih (m.1.emit [tradeExecutedEvent trade
      (m.2.nextSequence trade.symbol).2], (m.2.nextSequence trade.symbol).1)
    refine ⟨le_trans ?_ hle, hevents.trans ?_⟩
    · rw [sequences_nextSequence]
      split <;> omega
    · rw [UnitOfWork.emit, broadcast_append]
      exact List.append_nil _

theorem broadcast_orderFilledEvents : broadcast pair w.orderFilledEvents = [] := by
  have hnone : w.orderFilledEvents.filterMap (fun event => handleMessage event.payload) = [] := by
    rw [UnitOfWork.orderFilledEvents, List.filterMap_map, List.filterMap_eq_nil_iff]
    intro order _
    rfl
  rw [broadcast, hnone, List.filter_nil]

/-- The event of a placed order. -/
def placedEvent (order : Order) (v : Valkey) : OutboxEvent :=
  let (valkey, sequenceId) := v.nextSequence order.pair
  orderPlacedEvent order (valkey.getLevelTotalQuantity order.pair order.side order.price) sequenceId

/-- Of the events of a placed order only the first updates a level. -/
theorem placeOrder_numbers : (v.nextSequence order.pair).1.sequences pair ≤
      (placeOrder db tradeIds order v).2.sequences pair ∧
    broadcast pair (placeOrder db tradeIds order v).1.outboxList =
      broadcast pair [placedEvent order v] := by
  let matched := executeMatch db tradeIds (opened order v)
  have hsequences : matched.2.sequences = (v.nextSequence order.pair).1.sequences := by
    have hloop := @sequences_matchOrders db tradeIds
      ((opened order v).2.getBestOpposingOrders (opened order v).1.takerOrder.pair
        (opened order v).1.takerOrder.side) (opened order v)
    change (if _ = (0 : ℤ) then _ else _ : Valkey).sequences = _
    split
    · exact hloop
    · exact hloop
  obtain ⟨hle, hevents⟩ := @reportTrades_numbers pair matched.1.trades matched
  refine ⟨hsequences ▸ hle, ?_⟩
  change broadcast pair ((reportTrades matched.1.trades matched).1.outboxList ++ _) = _
  rw [broadcast_append, broadcast_orderFilledEvents, List.append_nil, hevents,
    executeMatch_outboxList]
  rfl

theorem broadcast_singleton {event : OutboxEvent} {delta : WsOrderBookUpdateMessage}
    (h : handleMessage event.payload = some delta) :
    broadcast pair [event] = if delta.symbol = pair then [delta] else [] := by
  have hevents : [event].filterMap (fun event => handleMessage event.payload) = [delta] := by
    simp [h]
  rw [broadcast, hevents, List.filter_singleton]
  simp

/-- The update for a placed order. -/
def placedDelta (order : Order) (v : Valkey) : WsOrderBookUpdateMessage where
  symbol := order.pair
  sequenceId := v.sequences order.pair + 1
  side := order.side
  price := order.price
  quantity := v.getLevelTotalQuantity order.pair order.side order.price

/-- The update for a cancelled order. -/
def cancelDelta (s : OrdersStore) (request : CancelOrderRequest) (order : Order) :
    WsOrderBookUpdateMessage where
  symbol := order.pair
  sequenceId := s.valkey.sequences order.pair + 1
  side := order.side
  price := order.price
  quantity := (cancelled s request order).1.getLevelTotalQuantity order.pair order.side order.price

theorem broadcast_placedEvent : broadcast pair [placedEvent order v] =
    if order.pair = pair then [placedDelta order v] else [] := by
  have hmessage : handleMessage (placedEvent order v).payload = some (placedDelta order v) := rfl
  rw [broadcast_singleton hmessage]
  rfl

theorem broadcast_cancelEvent : broadcast pair [cancelEvent s cancelRequest order] =
    if order.pair = pair then [cancelDelta s cancelRequest order] else [] := by
  have hmessage : handleMessage (cancelEvent s cancelRequest order).payload =
      some (cancelDelta s cancelRequest order) := rfl
  rw [broadcast_singleton hmessage]
  rfl

/-- What a call broadcasts of a pair has the next number of its book. -/
theorem broadcast_run (h : Mirrors s.db s.valkey) (call : Call) :
    s.valkey.sequences pair ≤ (call.run s).valkey.sequences pair ∧
      ∃ deltas, broadcast pair (call.run s).db.outboxEvents =
          broadcast pair s.db.outboxEvents ++ deltas ∧
        ∀ delta ∈ deltas, delta.sequenceId = s.valkey.sequences pair + 1 ∧
          delta.sequenceId ≤ (call.run s).valkey.sequences pair := by
  cases callEffect h call with
  | quiet horders hevents hvalkey =>
    exact ⟨hvalkey ▸ le_rfl, [], by rw [hevents, List.append_nil],
      fun delta hdelta => absurd hdelta List.not_mem_nil⟩
  | @placed request ids lockReply order hvalid hplaced =>
    obtain ⟨-, hevents, hvalkey⟩ := run_placed hvalid hplaced
    obtain ⟨hle, hbroadcast⟩ := @placeOrder_numbers (lockSent s request ids.recordId).db
      s.valkey pair order ids.tradeIds
    rw [sequences_nextSequence] at hle
    rw [hvalkey, hevents, broadcast_append, hbroadcast, broadcast_placedEvent]
    refine ⟨?_, _, rfl, fun delta hdelta => ?_⟩
    · split at hle <;> omega
    · split at hdelta
      · next hpair =>
        obtain rfl := List.mem_singleton.mp hdelta
        obtain rfl : order.pair = pair := hpair
        rw [if_pos rfl] at hle
        exact ⟨rfl, hle⟩
      · exact absurd hdelta List.not_mem_nil
  | @cancelled request order hfind hopen =>
    obtain ⟨hdb, hvalkey⟩ := run_cancelled hfind hopen
    have hnext : (cancelled s request order).1.sequences pair = _ :=
      sequences_nextSequence (s.valkey.removeOrder request.orderId order.pair order.side) order.pair
    rw [hdb, hvalkey, hnext]
    change s.valkey.sequences pair ≤ (if pair = order.pair then s.valkey.sequences pair + 1
      else s.valkey.sequences pair) ∧ _
    change _ ∧ ∃ deltas, broadcast pair (s.db.outboxEvents ++ [_]) = _ ∧ _
    rw [broadcast_append, broadcast_cancelEvent]
    refine ⟨?_, _, rfl, fun delta hdelta => ?_⟩
    · split <;> omega
    · split at hdelta
      · next hpair =>
        obtain rfl := List.mem_singleton.mp hdelta
        obtain rfl : order.pair = pair := hpair
        exact ⟨rfl, (if_pos rfl).ge⟩
      · exact absurd hdelta List.not_mem_nil

end EtherTrade.OrderBookLevels
