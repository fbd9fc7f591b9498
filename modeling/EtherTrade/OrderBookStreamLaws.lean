import EtherTrade.OrderBookLevels
import EtherTrade.OrderFillLaws

/-!
# What a client of the order book knows

The updates that the gateway sends carry the total of a level after a cancellation, but
before the match and the insertion of a new order, and trades send none. A client follows
the book as long as nothing is placed and each total counts the orders of its level.
-/

namespace EtherTrade.OrderBookStreamLaws

open DecimalNumbers KeyedRows GroupedTotals AccountsSchema OrdersSchema OrderBook MatchingEngine
open OrdersTransactions OrdersTransactionInvariants OrdersTransactionSteps SequentialOrders
open RestingOrders MatchingLoop OpenOrders UncrossedBookLaws OrderBookStream OrderBookLevels
open SortedSets OrderFillLaws
open TradeSettlement (TradingSymbol)

variable {db : OrdersDb} {v v' v'' : Valkey} {book : Book} {pair : TradingSymbol} {side : OrderSide}
  {e : OrderbookEntry} {orderId : Uuid} {order : Order} {w : UnitOfWork} {tradeIds : ℕ → Uuid}
  {m : Matching} {s : OrdersStore} {call : Call}

/-! ### The book of one pair -/

/-- The book of a pair is the same. -/
structure SameBook (pair : TradingSymbol) (v v' : Valkey) : Prop where
  orderbooks : v'.orderbooks pair = v.orderbooks pair
  details : ∀ side, ∀ orderId ∈ (v.orderbooks pair side).ranked,
    v'.getOrderDetails orderId = v.getOrderDetails orderId

/-- An order is on no side of a pair. -/
def OffBook (pair : TradingSymbol) (v : Valkey) (orderId : Uuid) : Prop :=
  ∀ side, orderId ∉ (v.orderbooks pair side).ranked

theorem offBook_of_holds (h : Holds v book) (hpair : ∀ e, book orderId = some e → e.pair ≠ pair) :
    OffBook pair v orderId := by
  intro side hmem
  obtain ⟨e, he, heq, -⟩ := h.mem_ranked.mp hmem
  exact hpair e he heq

namespace SameBook

theorem refl (pair : TradingSymbol) (v : Valkey) : SameBook pair v v := ⟨rfl, fun _ _ _ => rfl⟩

theorem symm (h : SameBook pair v v') : SameBook pair v' v where
  orderbooks := h.orderbooks.symm
  details side orderId hmem := (h.details side orderId (h.orderbooks ▸ hmem)).symm

theorem trans (h : SameBook pair v v') (h' : SameBook pair v' v'') : SameBook pair v v'' where
  orderbooks := h'.orderbooks.trans h.orderbooks
  details side orderId hmem :=
    (h'.details side orderId (h.orderbooks ▸ hmem)).trans (h.details side orderId hmem)

theorem offBook (h : SameBook pair v v') (hoff : OffBook pair v orderId) :
    OffBook pair v' orderId := by
  intro side hmem
  rw [h.orderbooks] at hmem
  exact hoff side hmem

theorem levels_eq (h : SameBook pair v v') : levels v' pair = levels v pair := by
  have horders (side : OrderSide) : sideOrders v' pair side = sideOrders v pair side := by
    have hids : opposingOrderIds v' pair side.opposing = opposingOrderIds v pair side.opposing := by
      rw [opposingOrderIds, opposingOrderIds, h.orderbooks]
    rw [sideOrders, opposingOrders, hids]
    exact List.filterMap_congr fun orderId hmem =>
      h.details side orderId (opposingOrderIds_perm.mem_iff.mp hmem)
  funext side
  rw [levels, horders]
  rfl

/-- A command that writes the hash of an order of another pair. -/
theorem of_writes (horderbooks : v'.orderbooks pair = v.orderbooks pair)
    (hdetails : ∀ k ≠ orderId, v'.orderDetails k = v.orderDetails k)
    (hoff : OffBook pair v orderId) : SameBook pair v v' where
  orderbooks := horderbooks
  details side k hk := by
    have hne : k ≠ orderId := fun heq => hoff side (heq ▸ hk)
    rw [Valkey.getOrderDetails, hdetails k hne]
    rfl

theorem nextSequence (v : Valkey) (pair' : TradingSymbol) :
    SameBook pair v (v.nextSequence pair').1 := ⟨rfl, fun _ _ _ => rfl⟩

end SameBook

/-! ### The book in the course of a call -/

theorem orderbooks_of_ne {pair' : TradingSymbol} {z : SortedSet Uuid ℚ} (hne : pair' ≠ pair) :
    (v.setOrderbook pair' side z).orderbooks pair = v.orderbooks pair :=
  Function.update_of_ne hne.symm _ _

theorem sameBook_makerBooks {maker : OrderbookEntry} (hne : maker.pair ≠ pair)
    (hoff : OffBook pair v maker.orderId) (h : v' ∈ makerBooks w maker v) : SameBook pair v v' := by
  unfold makerBooks at h
  split at h
  · rcases List.mem_cons.mp h with rfl | h
    · exact .of_writes (orderbooks_of_ne hne) (fun _ _ => rfl) hoff
    · obtain rfl := List.mem_singleton.mp h
      exact .of_writes (orderbooks_of_ne hne) (fun _ hk => Function.update_of_ne hk _ _) hoff
  · obtain rfl := List.mem_singleton.mp h
    exact .of_writes rfl (fun _ hk => Function.update_of_ne hk _ _) hoff

theorem updateBook_mem (w : UnitOfWork) (maker : OrderbookEntry) (v : Valkey) :
    updateBook w maker v ∈ makerBooks w maker v := by
  unfold updateBook makerBooks
  split <;> simp

theorem sameBook_matchBooks {makers : List OrderbookEntry}
    (hmakers : ∀ maker ∈ makers, maker.pair ≠ pair ∧ OffBook pair m.2 maker.orderId)
    (h : v ∈ matchBooks db tradeIds makers m) : SameBook pair m.2 v := by
  induction makers generalizing m with
  | nil => exact absurd h List.not_mem_nil
  | cons maker makers ih =>
    obtain ⟨hne, hoff⟩ := hmakers maker List.mem_cons_self
    have hrest := fun maker' hmem => hmakers maker' (List.mem_cons_of_mem maker hmem)
    rw [matchBooks] at h
    split at h
    · exact absurd h List.not_mem_nil
    · split at h
      · exact ih hrest h
      · split at h
        · have hfilled := sameBook_makerBooks hne hoff (updateBook_mem m.1 maker m.2)
          rcases List.mem_append.mp h with h | h
          · exact sameBook_makerBooks hne hoff h
          · refine hfilled.trans (@ih (fillMaker db tradeIds maker m) (fun maker' hmem => ?_) h)
            exact ⟨(hrest maker' hmem).1, hfilled.offBook (hrest maker' hmem).2⟩
        · exact absurd h List.not_mem_nil

theorem sameBook_numberBooks {trades : List MatchedTrade} (h : v' ∈ numberBooks trades v) :
    SameBook pair v v' := by
  induction trades generalizing v with
  | nil => exact absurd h List.not_mem_nil
  | cons trade trades ih =>
    rcases List.mem_cons.mp h with rfl | h
    · exact .nextSequence v trade.symbol
    · exact (SameBook.nextSequence v trade.symbol).trans (ih h)

/-! ### The end of the course -/

theorem matchOrders_mem (makers : List OrderbookEntry) (m : Matching) :
    (matchOrders db tradeIds makers m).2 = m.2 ∨
      (matchOrders db tradeIds makers m).2 ∈ matchBooks db tradeIds makers m := by
  induction makers generalizing m with
  | nil => exact .inl rfl
  | cons maker makers ih =>
    rw [matchOrders, matchBooks]
    split
    · exact .inl rfl
    · split
      · exact ih m
      · split
        · rcases ih (fillMaker db tradeIds maker m) with heq | hmem
          · rw [heq]
            exact .inr (List.mem_append_left _ (updateBook_mem m.1 maker m.2))
          · exact .inr (List.mem_append_right _ hmem)
        · exact .inl rfl

theorem reportTrades_mem (trades : List MatchedTrade) (m : Matching) :
    (reportTrades trades m).2 = m.2 ∨ (reportTrades trades m).2 ∈ numberBooks trades m.2 := by
  induction trades generalizing m with
  | nil => exact .inl rfl
  | cons trade trades ih =>
    rcases ih (m.1.emit [tradeExecutedEvent trade (m.2.nextSequence trade.symbol).2],
      (m.2.nextSequence trade.symbol).1) with heq | hmem
    · exact .inr (List.mem_cons.mpr (.inl heq))
    · exact .inr (List.mem_cons_of_mem _ hmem)

/-- The book after a match, before the rest of the taker is added. -/
def matchedBook (db : OrdersDb) (tradeIds : ℕ → Uuid) (order : Order) (v : Valkey) : Matching :=
  matchOrders db tradeIds ((v.nextSequence order.pair).1.getBestOpposingOrders order.pair order.side)
    (opened order v)

theorem placeBooks_eq : placeBooks db tradeIds order v = v :: (v.nextSequence order.pair).1 ::
    matchBooks db tradeIds
      ((v.nextSequence order.pair).1.getBestOpposingOrders order.pair order.side)
      (opened order v) ++
    (if (matchedBook db tradeIds order v).1.currentTakerRemaining = 0 then []
      else [(matchedBook db tradeIds order v).2.zaddOrder
          (matchedBook db tradeIds order v).1.restingEntry,
        (matchedBook db tradeIds order v).2.addOrder
          (matchedBook db tradeIds order v).1.restingEntry]) ++
    numberBooks (executeMatch db tradeIds (opened order v)).1.trades
      (executeMatch db tradeIds (opened order v)).2 := rfl

theorem mem_placeBooks : v' ∈ placeBooks db tradeIds order v ↔
    v' = v ∨ v' = (v.nextSequence order.pair).1 ∨
      v' ∈ matchBooks db tradeIds
        ((v.nextSequence order.pair).1.getBestOpposingOrders order.pair order.side)
        (opened order v) ∨
      ((matchedBook db tradeIds order v).1.currentTakerRemaining ≠ 0 ∧
        (v' = (matchedBook db tradeIds order v).2.zaddOrder
            (matchedBook db tradeIds order v).1.restingEntry ∨
          v' = (matchedBook db tradeIds order v).2.addOrder
            (matchedBook db tradeIds order v).1.restingEntry)) ∨
      v' ∈ numberBooks (executeMatch db tradeIds (opened order v)).1.trades
        (executeMatch db tradeIds (opened order v)).2 := by
  rw [placeBooks_eq]
  split
  · next hzero => simp [hzero]
  · next hrests => simp [hrests, or_assoc]

theorem executeMatch_snd : (executeMatch db tradeIds (opened order v)).2 =
    if (matchedBook db tradeIds order v).1.currentTakerRemaining = 0 then
      (matchedBook db tradeIds order v).2
    else (matchedBook db tradeIds order v).2.addOrder
      (matchedBook db tradeIds order v).1.restingEntry := rfl

theorem executeMatch_mem :
    (executeMatch db tradeIds (opened order v)).2 ∈ placeBooks db tradeIds order v := by
  rw [mem_placeBooks, executeMatch_snd]
  split
  · rcases @matchOrders_mem db tradeIds
      ((v.nextSequence order.pair).1.getBestOpposingOrders order.pair order.side)
      (opened order v) with heq | hmem
    · exact .inr (.inl heq)
    · exact .inr (.inr (.inl hmem))
  · next hrests => exact .inr (.inr (.inr (.inl ⟨hrests, .inr rfl⟩)))

theorem placeOrder_snd : (placeOrder db tradeIds order v).2 =
    (reportTrades (executeMatch db tradeIds (opened order v)).1.trades
      (executeMatch db tradeIds (opened order v))).2 := rfl

theorem placeOrder_mem : (placeOrder db tradeIds order v).2 ∈ placeBooks db tradeIds order v := by
  rcases reportTrades_mem (executeMatch db tradeIds (opened order v)).1.trades
    (executeMatch db tradeIds (opened order v)) with heq | hmem
  · rw [placeOrder_snd, heq]
    exact executeMatch_mem
  · rw [placeOrder_snd]
    exact mem_placeBooks.mpr (.inr (.inr (.inr (.inr hmem))))

/-- The course of a call ends in the book of the run. -/
theorem run_mem_callBooks (h : Mirrors s.db s.valkey) (call : Call) :
    (call.run s).valkey ∈ callBooks s call := by
  cases callEffect h call with
  | quiet horders hevents hvalkey hbooks =>
    rw [hvalkey, hbooks]
    exact List.mem_singleton_self _
  | placed hvalid hplaced =>
    rw [(run_placed hvalid hplaced).2.2]
    simp only [callBooks, hvalid, hplaced]
    exact placeOrder_mem
  | cancelled hfind hopen =>
    rw [(run_cancelled hfind hopen).2]
    simp only [callBooks, cancelBooks, hfind]
    exact List.mem_of_mem_getLast? rfl

/-- It starts with the book before the call. -/
theorem start_mem_callBooks (call : Call) : s.valkey ∈ callBooks s call := by
  cases call with
  | createOrder request ids lockReply =>
    cases hvalid : validateCreateOrderRequest request with
    | some exception => simp only [callBooks, hvalid, List.mem_singleton]
    | none =>
      cases hplaced : placedOrder s request ids lockReply with
      | none => simp only [callBooks, hvalid, hplaced, List.mem_singleton]
      | some order =>
        simp only [callBooks, hvalid, hplaced]
        exact mem_placeBooks.mpr (.inl rfl)
  | cancelOrder request =>
    cases hfind : findCancellable s request <;> simp [callBooks, cancelBooks, hfind]
  | passTime ms => exact List.mem_singleton_self _

/-! ### Books of other pairs -/

theorem sameBook_placeBooks (h : Holds v book) (hnew : book order.id = none)
    (hne : order.pair ≠ pair) (hmem : v' ∈ placeBooks db tradeIds order v) :
    SameBook pair v v' := by
  have hcounted : SameBook pair v (v.nextSequence order.pair).1 := .nextSequence v order.pair
  have hmakers : ∀ maker ∈ (v.nextSequence order.pair).1.getBestOpposingOrders order.pair order.side,
      maker.pair ≠ pair ∧ OffBook pair (opened order v).2 maker.orderId := by
    intro maker hmaker
    have hfirst := getBestOpposingOrders_isInitial (v.nextSequence order.pair).1 order.pair order.side
    obtain ⟨hbook, hpair, -⟩ := h.nextSequence.mem_opposingOrders.mp (hfirst.subset hmaker)
    refine ⟨hpair ▸ hne, offBook_of_holds h.nextSequence fun e he => ?_⟩
    rw [hbook] at he
    obtain rfl := Option.some.inj he
    exact hpair ▸ hne
  have hmatched : SameBook pair v (matchedBook db tradeIds order v).2 := by
    rcases @matchOrders_mem db tradeIds
      ((v.nextSequence order.pair).1.getBestOpposingOrders order.pair order.side)
      (opened order v) with heq | hmem
    · exact heq ▸ hcounted
    · exact hcounted.trans (sameBook_matchBooks hmakers hmem)
  have htaker : (matchedBook db tradeIds order v).1.takerOrder = order := by
    rw [matchedBook, matchOrders_eq_fillAll, fillAll_takerOrder]
    rfl
  have hpair : (matchedBook db tradeIds order v).1.restingEntry.pair ≠ pair := by
    change (matchedBook db tradeIds order v).1.takerOrder.pair ≠ pair
    rwa [htaker]
  have hoff : OffBook pair (matchedBook db tradeIds order v).2
      (matchedBook db tradeIds order v).1.restingEntry.orderId := by
    change OffBook pair _ (matchedBook db tradeIds order v).1.takerOrder.id
    rw [htaker]
    refine hmatched.offBook (offBook_of_holds h fun e he => ?_)
    rw [hnew] at he
    cases he
  have hzadd : SameBook pair v ((matchedBook db tradeIds order v).2.zaddOrder
      (matchedBook db tradeIds order v).1.restingEntry) :=
    hmatched.trans (.of_writes (orderbooks_of_ne hpair) (fun _ _ => rfl) hoff)
  have hadd : SameBook pair v ((matchedBook db tradeIds order v).2.addOrder
      (matchedBook db tradeIds order v).1.restingEntry) :=
    hmatched.trans (.of_writes (orderbooks_of_ne hpair)
      (fun _ hk => Function.update_of_ne hk _ _) hoff)
  rcases mem_placeBooks.mp hmem with rfl | rfl | hmem | ⟨-, rfl | rfl⟩ | hmem
  · exact .refl pair v'
  · exact hcounted
  · exact hcounted.trans (sameBook_matchBooks hmakers hmem)
  · exact hzadd
  · exact hadd
  · have hexecuted : SameBook pair v (executeMatch db tradeIds (opened order v)).2 := by
      rw [executeMatch_snd]
      split
      · exact hmatched
      · exact hadd
    exact hexecuted.trans (sameBook_numberBooks hmem)

/-! ### Numbers in the course of a call -/

theorem sequences_matchBooks {makers : List OrderbookEntry}
    (h : v ∈ matchBooks db tradeIds makers m) : v.sequences = m.2.sequences := by
  induction makers generalizing m with
  | nil => exact absurd h List.not_mem_nil
  | cons maker makers ih =>
    have hupdate {v' : Valkey} (h' : v' ∈ makerBooks m.1 maker m.2) :
        v'.sequences = m.2.sequences := by
      unfold makerBooks at h'
      split at h'
      · rcases List.mem_cons.mp h' with rfl | h'
        · rfl
        · obtain rfl := List.mem_singleton.mp h'
          rfl
      · obtain rfl := List.mem_singleton.mp h'
        rfl
    rw [matchBooks] at h
    split at h
    · exact absurd h List.not_mem_nil
    · split at h
      · exact ih h
      · split at h
        · rcases List.mem_append.mp h with h | h
          · exact hupdate h
          · exact (ih h).trans (hupdate (updateBook_mem m.1 maker m.2))
        · exact absurd h List.not_mem_nil

theorem numbers_numberBooks (trades : List MatchedTrade) (m : Matching)
    (h : v ∈ numberBooks trades m.2) : m.2.sequences pair ≤ v.sequences pair ∧
      v.sequences pair ≤ (reportTrades trades m).2.sequences pair := by
  induction trades generalizing m with
  | nil => exact absurd h List.not_mem_nil
  | cons trade trades ih =>
    let next : Matching := (m.1.emit [tradeExecutedEvent trade (m.2.nextSequence trade.symbol).2],
      (m.2.nextSequence trade.symbol).1)
    have hnext : m.2.sequences pair ≤ next.2.sequences pair := by
      change _ ≤ (m.2.nextSequence trade.symbol).1.sequences pair
      rw [sequences_nextSequence]
      split <;> omega
    rcases List.mem_cons.mp h with rfl | h
    · exact ⟨hnext, (reportTrades_numbers trades next).1⟩
    · obtain ⟨hle, hend⟩ := ih next h
      exact ⟨hnext.trans hle, hend⟩

theorem numbers_placeBooks (h : v' ∈ placeBooks db tradeIds order v) :
    v.sequences pair ≤ v'.sequences pair ∧
      v'.sequences pair ≤ (placeOrder db tradeIds order v).2.sequences pair := by
  have hcounted : v.sequences pair ≤ (v.nextSequence order.pair).1.sequences pair := by
    rw [sequences_nextSequence]
    split <;> omega
  have hplaced := (@placeOrder_numbers db v pair order tradeIds).1
  have hmatched : (matchedBook db tradeIds order v).2.sequences =
      (v.nextSequence order.pair).1.sequences := sequences_matchOrders _ (opened order v)
  rcases mem_placeBooks.mp h with rfl | rfl | hmem | ⟨-, rfl | rfl⟩ | hmem
  · exact ⟨le_rfl, hcounted.trans hplaced⟩
  · exact ⟨hcounted, hplaced⟩
  · rw [sequences_matchBooks hmem]
    exact ⟨hcounted, hplaced⟩
  · change v.sequences pair ≤ (matchedBook db tradeIds order v).2.sequences pair ∧
      (matchedBook db tradeIds order v).2.sequences pair ≤ _
    rw [hmatched]
    exact ⟨hcounted, hplaced⟩
  · change v.sequences pair ≤ (matchedBook db tradeIds order v).2.sequences pair ∧
      (matchedBook db tradeIds order v).2.sequences pair ≤ _
    rw [hmatched]
    exact ⟨hcounted, hplaced⟩
  · obtain ⟨hle, hend⟩ := numbers_numberBooks (executeMatch db tradeIds (opened order v)).1.trades
      (executeMatch db tradeIds (opened order v)) hmem
    have hexecuted : (executeMatch db tradeIds (opened order v)).2.sequences =
        (v.nextSequence order.pair).1.sequences := by
      rw [executeMatch_snd]
      split
      · exact hmatched
      · exact hmatched
    rw [hexecuted] at hle
    exact ⟨hcounted.trans hle, hend⟩

/-- In the course of a call the numbers go from those before it to those after it. -/
theorem numbers_callBooks (h : Mirrors s.db s.valkey) (hv : v ∈ callBooks s call) :
    s.valkey.sequences pair ≤ v.sequences pair ∧
      v.sequences pair ≤ (call.run s).valkey.sequences pair := by
  cases callEffect h call with
  | quiet horders hevents hvalkey hbooks =>
    rw [hbooks] at hv
    obtain rfl := List.mem_singleton.mp hv
    rw [hvalkey]
    exact ⟨le_rfl, le_rfl⟩
  | placed hvalid hplaced =>
    simp only [callBooks, hvalid, hplaced] at hv
    rw [(run_placed hvalid hplaced).2.2]
    exact numbers_placeBooks hv
  | @cancelled request order hfind hopen =>
    have hnext : s.valkey.sequences pair ≤ (cancelled s request order).1.sequences pair := by
      rw [cancelled, sequences_nextSequence]
      split
      · exact Nat.le_succ (s.valkey.sequences pair)
      · exact le_rfl
    simp only [callBooks, cancelBooks, hfind, List.mem_cons, List.not_mem_nil, or_false] at hv
    rw [(run_cancelled hfind hopen).2]
    rcases hv with rfl | rfl | rfl | rfl
    · exact ⟨le_rfl, hnext⟩
    · exact ⟨le_rfl, hnext⟩
    · exact ⟨le_rfl, hnext⟩
    · exact ⟨hnext, le_rfl⟩

/-! ### Updates that report a level -/

/-- An update to an exact total makes the book of the client that of the store, if the other
levels are. -/
theorem applyDelta_of_exact {client : LevelBook} {delta : WsOrderBookUpdateMessage}
    (hpos : ∀ e ∈ sideOrders v pair delta.side, 0 < e.remainingAmount)
    (hquantity : delta.quantity = v.getLevelTotalQuantity pair delta.side delta.price)
    (hexact : TotalExact v pair delta.side delta.price)
    (hother : ∀ side price, ¬(side = delta.side ∧ price = delta.price) →
      client side price = levels v pair side price) :
    applyDelta client delta = levels v pair := by
  funext side price
  unfold applyDelta
  split
  · next heq =>
    obtain ⟨rfl, rfl⟩ := heq
    rw [levels, totalAt_of_pos hpos, hquantity, getLevelTotalQuantity_of_exact hexact]
  · next hne => exact hother side price hne

/-- The levels besides that of the cancelled order stay. -/
theorem levels_cancelled (h : Mirrors s.db s.valkey) {request : CancelOrderRequest}
    (hfind : findCancellable s request = .ok order) {price : ℤ}
    (hne : ¬(side = order.side ∧ price = order.price)) :
    levels s.valkey order.pair side price =
      levels (cancelled s request order).1 order.pair side price := by
  have hkept : ∀ e : OrderbookEntry, e.pair = order.pair → e.side = side →
      (Function.update s.valkey.getOrderDetails request.orderId none e.orderId = some e ↔
        s.valkey.getOrderDetails e.orderId = some e ∧
          decide (e.orderId ≠ request.orderId) = true) := by
    intro e _ _
    by_cases hid : e.orderId = request.orderId <;> simp [hid]
  rw [levels_eq h.holds (holds_cancelled h hfind) hkept]
  refine totalAt_congr ?_
  rw [List.filter_filter]
  refine List.filter_congr fun e he => ?_
  obtain ⟨hdetails, -, hside⟩ := (mem_sideOrders h.holds).mp he
  by_cases hprice : e.price = price
  · have hid : e.orderId ≠ request.orderId := by
      intro hid
      obtain ⟨-, row, hrow, -, hrowSide, hrowPrice⟩ := h.rows _ e hdetails
      rw [hid, (findById_of_findCancellable hfind).1] at hrow
      obtain rfl := Option.some.inj hrow
      exact hne ⟨hside.symm.trans hrowSide, hprice.symm.trans hrowPrice⟩
    simp [hprice, hid]
  · simp [hprice]

/-- An order that asks for nothing leaves the book. -/
theorem placeBooks_of_zero (hzero : order.remainingAmount = 0) :
    placeBooks db tradeIds order v = [v, (v.nextSequence order.pair).1] := by
  have hremaining : (opened order v).1.currentTakerRemaining = 0 := hzero
  have hbooks (makers : List OrderbookEntry) :
      matchBooks db tradeIds makers (opened order v) = [] := by
    cases makers with
    | nil => rfl
    | cons maker makers => rw [matchBooks, if_pos hremaining]
  have hmatched (makers : List OrderbookEntry) :
      matchOrders db tradeIds makers (opened order v) = opened order v := by
    rw [matchOrders_eq_fillAll, fillAll_filled hremaining]
  have htrades : (executeMatch db tradeIds (opened order v)).1.trades = [] := by
    rw [executeMatch, hmatched]
    rfl
  have hends : (matchedBook db tradeIds order v).1.currentTakerRemaining = 0 := by
    rw [matchedBook, hmatched]
    exact hremaining
  rw [placeBooks_eq, hbooks, if_pos hends, htrades]
  rfl

/-! ### Calls that a client can follow -/

/-- A call on the pair places nothing, and reports a total that counts its level. -/
def Faithful (pair : TradingSymbol) (s : OrdersStore) : Call → Prop
  | .createOrder request ids lockReply => ∀ order, validateCreateOrderRequest request = none →
      placedOrder s request ids lockReply = some order → order.pair = pair →
        order.remainingAmount = 0 ∧ TotalExact s.valkey pair order.side order.price
  | .cancelOrder request => ∀ order, findCancellable s request = .ok order → order.pair = pair →
      TotalExact (s.valkey.removeOrder request.orderId pair order.side) pair order.side order.price
  | .passTime _ => True

/-- Each of the calls does. -/
def FaithfulRun (pair : TradingSymbol) (s : OrdersStore) : List Call → Prop
  | [] => True
  | call :: calls => Faithful pair s call ∧ FaithfulRun pair (call.run s) calls

/-- A call in progress has numbered its update, and has made all its changes to the book. -/
def Settled (pair : TradingSymbol) (s : OrdersStore) (call : Call) (v : Valkey) : Prop :=
  s.valkey.sequences pair < v.sequences pair ∧ SameBook pair v (call.run s).valkey

/-- The updates of a pair with later numbers, as they are broadcast. -/
def later (pair : TradingSymbol) (number : ℕ) (events : List OutboxEvent) :
    List WsOrderBookUpdateMessage :=
  (broadcast pair events).filter fun delta => number < delta.sequenceId

/-- The client that had these levels with this number has those of the store. -/
structure Tracks (pair : TradingSymbol) (number : ℕ) (client : LevelBook) (s : OrdersStore) :
    Prop where
  number_le : number ≤ s.valkey.sequences pair
  current : (later pair number s.db.outboxEvents).foldl applyDelta client = levels s.valkey pair

/-- The updates of a pair are broadcast in the order of their numbers. -/
structure Numbered (pair : TradingSymbol) (s : OrdersStore) : Prop where
  mirrors : Mirrors s.db s.valkey
  bounded : ∀ delta ∈ broadcast pair s.db.outboxEvents,
    delta.sequenceId ≤ s.valkey.sequences pair
  ordered : (broadcast pair s.db.outboxEvents).Pairwise fun a b => a.sequenceId ≤ b.sequenceId

/-! ### A call that can be followed -/

theorem pos_sideOrders (h : Mirrors db v) (he : e ∈ sideOrders v pair side) :
    0 < e.remainingAmount :=
  (h.rows _ e ((mem_sideOrders h.holds).mp he).1).1

/-- The updates of a call bring every book in its course to that after it, and are late for
those with a number of the call. -/
structure Updates (pair : TradingSymbol) (s : OrdersStore) (call : Call)
    (deltas : List WsOrderBookUpdateMessage) : Prop where
  broadcast_eq : broadcast pair (call.run s).db.outboxEvents =
    broadcast pair s.db.outboxEvents ++ deltas
  brings : ∀ v ∈ callBooks s call,
    deltas.foldl applyDelta (levels v pair) = levels (call.run s).valkey pair
  late : ∀ v ∈ callBooks s call, s.valkey.sequences pair < v.sequences pair →
    levels v pair = levels (call.run s).valkey pair

theorem updates_of_sameBook
    (hbroadcast : broadcast pair (call.run s).db.outboxEvents = broadcast pair s.db.outboxEvents)
    (hsame : ∀ v ∈ callBooks s call, SameBook pair v (call.run s).valkey) :
    Updates pair s call [] where
  broadcast_eq := by rw [hbroadcast, List.append_nil]
  brings v hv := (hsame v hv).levels_eq.symm
  late v hv _ := (hsame v hv).levels_eq.symm

/-- A placed order that asks for nothing reports the level that it leaves. -/
theorem updates_placed {request : CreateOrderRequest} {ids : NewIds} {lockReply : BalanceReply}
    (h : Mirrors s.db s.valkey) (hvalid : validateCreateOrderRequest request = none)
    (hplaced : placedOrder s request ids lockReply = some order)
    (hfaithful : Faithful pair s (.createOrder request ids lockReply)) :
    ∃ deltas, Updates pair s (.createOrder request ids lockReply) deltas := by
  let sent := (lockSent s request ids.recordId).db
  have hend := run_mem_callBooks h (.createOrder request ids lockReply)
  obtain ⟨-, hevents, -⟩ := run_placed hvalid hplaced
  have hbroadcast : broadcast pair
      ((Call.createOrder request ids lockReply).run s).db.outboxEvents =
        broadcast pair s.db.outboxEvents ++
          if order.pair = pair then [placedDelta order s.valkey] else [] := by
    rw [hevents, broadcast_append, placeOrder_numbers.2, broadcast_placedEvent]
  have hbooks : callBooks s (.createOrder request ids lockReply) =
      placeBooks sent ids.tradeIds order s.valkey := by
    simp only [callBooks, hvalid, hplaced]
    rfl
  by_cases hpair : order.pair = pair
  · obtain ⟨hzero, hexact⟩ := hfaithful order hvalid hplaced hpair
    have hsame : ∀ v ∈ callBooks s (.createOrder request ids lockReply),
        levels v pair = levels s.valkey pair := by
      intro v hv
      rw [hbooks, placeBooks_of_zero hzero] at hv
      rcases List.mem_cons.mp hv with rfl | hv
      · rfl
      · obtain rfl := List.mem_singleton.mp hv
        exact (SameBook.nextSequence s.valkey order.pair).levels_eq
    rw [if_pos hpair] at hbroadcast
    refine ⟨_, hbroadcast, fun v hv => ?_, fun v hv _ => (hsame v hv).trans (hsame _ hend).symm⟩
    rw [hsame v hv, hsame _ hend]
    subst hpair
    exact applyDelta_of_exact (fun e he => pos_sideOrders h he) rfl hexact fun _ _ _ => rfl
  · obtain ⟨hnew, hfresh⟩ := newOrder_of_placed hplaced
    have hmissing := h.missing (newOrder_id hnew ▸ hfresh)
    have hsame : ∀ v ∈ callBooks s (.createOrder request ids lockReply),
        SameBook pair s.valkey v := by
      intro v hv
      rw [hbooks] at hv
      exact sameBook_placeBooks h.holds hmissing hpair hv
    rw [if_neg hpair, List.append_nil] at hbroadcast
    exact ⟨[], updates_of_sameBook hbroadcast fun v hv => (hsame v hv).symm.trans (hsame _ hend)⟩

/-- A cancellation reports the level that it leaves. -/
theorem updates_cancelled {request : CancelOrderRequest} (h : Mirrors s.db s.valkey)
    (hfind : findCancellable s request = .ok order)
    (hopen : order.status ∈ OrderStatus.cancellable)
    (hfaithful : Faithful pair s (.cancelOrder request)) :
    ∃ deltas, Updates pair s (.cancelOrder request) deltas := by
  let removed := s.valkey.zremOrder request.orderId order.pair order.side
  let deleted := removed.delOrder request.orderId
  obtain ⟨hdb, hvalkey⟩ := run_cancelled hfind hopen
  have hbroadcast : broadcast pair ((Call.cancelOrder request).run s).db.outboxEvents =
      broadcast pair s.db.outboxEvents ++
        if order.pair = pair then [cancelDelta s request order] else [] := by
    rw [hdb, ← broadcast_cancelEvent, ← broadcast_append]
    rfl
  have hbooks : callBooks s (.cancelOrder request) =
      [s.valkey, removed, deleted, (cancelled s request order).1] := by
    simp only [callBooks, cancelBooks, hfind]
    rfl
  have hnumbered : SameBook pair deleted (cancelled s request order).1 :=
    .nextSequence deleted order.pair
  by_cases hpair : order.pair = pair
  · subst hpair
    have hgone : OffBook order.pair (cancelled s request order).1 request.orderId := by
      refine offBook_of_holds (holds_cancelled h hfind) fun e he => ?_
      rw [Function.update_self] at he
      cases he
    have hdeleted : SameBook order.pair removed deleted :=
      .of_writes rfl (fun _ hk => Function.update_of_ne hk _ _) hgone
    have hlevels : ∀ v ∈ callBooks s (.cancelOrder request), v = s.valkey ∨
        levels v order.pair = levels (cancelled s request order).1 order.pair := by
      intro v hv
      rw [hbooks] at hv
      simp only [List.mem_cons, List.not_mem_nil, or_false] at hv
      rcases hv with rfl | rfl | rfl | rfl
      · exact .inl rfl
      · exact .inr (hdeleted.trans hnumbered).levels_eq.symm
      · exact .inr hnumbered.levels_eq.symm
      · exact .inr rfl
    have hafter := mirrors_run h (.cancelOrder request)
    rw [hvalkey] at hafter
    have hupdate {client : LevelBook} (hother : ∀ side price,
        ¬(side = order.side ∧ price = order.price) →
          client side price = levels (cancelled s request order).1 order.pair side price) :
        applyDelta client (cancelDelta s request order) =
          levels (cancelled s request order).1 order.pair :=
      applyDelta_of_exact (fun e he => pos_sideOrders hafter he) rfl (hfaithful order hfind rfl) hother
    rw [if_pos rfl] at hbroadcast
    refine ⟨_, hbroadcast, fun v hv => ?_, fun v hv hlate => ?_⟩
    · rw [hvalkey]
      rcases hlevels v hv with rfl | hv
      · exact hupdate fun _ _ hne => levels_cancelled h hfind hne
      · rw [hv]
        exact hupdate fun _ _ _ => rfl
    · rw [hvalkey]
      exact (hlevels v hv).resolve_left fun heq => (heq ▸ hlate).ne rfl
  · have hoff : OffBook pair s.valkey request.orderId := by
      refine offBook_of_holds h.holds fun e he => ?_
      obtain ⟨-, row, hrow, hrowPair, -⟩ := h.rows _ e he
      rw [(findById_of_findCancellable hfind).1] at hrow
      obtain rfl := Option.some.inj hrow
      exact hrowPair ▸ hpair
    have hremoved : SameBook pair s.valkey removed :=
      .of_writes (orderbooks_of_ne hpair) (fun _ _ => rfl) hoff
    have hdeleted : SameBook pair removed deleted :=
      .of_writes rfl (fun _ hk => Function.update_of_ne hk _ _) (hremoved.offBook hoff)
    rw [if_neg hpair, List.append_nil] at hbroadcast
    refine ⟨[], updates_of_sameBook hbroadcast fun v hv => ?_⟩
    rw [hbooks] at hv
    rw [hvalkey]
    simp only [List.mem_cons, List.not_mem_nil, or_false] at hv
    rcases hv with rfl | rfl | rfl | rfl
    · exact hremoved.trans (hdeleted.trans hnumbered)
    · exact hdeleted.trans hnumbered
    · exact hnumbered
    · exact .refl pair _

theorem exists_updates (h : Mirrors s.db s.valkey) (hfaithful : Faithful pair s call) :
    ∃ deltas, Updates pair s call deltas := by
  cases callEffect h call with
  | quiet horders hevents hvalkey hbooks =>
    refine ⟨[], updates_of_sameBook (by rw [hevents]) fun v hv => ?_⟩
    rw [hbooks] at hv
    obtain rfl := List.mem_singleton.mp hv
    exact hvalkey ▸ .refl pair s.valkey
  | placed hvalid hplaced => exact updates_placed h hvalid hplaced hfaithful
  | cancelled hfind hopen => exact updates_cancelled h hfind hopen hfaithful

/-! ### Clients that follow the book -/

theorem numbered_empty : Numbered pair (runCalls []) where
  mirrors := mirrors_empty
  bounded _ hdelta := absurd hdelta List.not_mem_nil
  ordered := .nil

theorem numbered_run (h : Numbered pair s) (call : Call) : Numbered pair (call.run s) := by
  obtain ⟨hle, deltas, hbroadcast, hnumbers⟩ := @broadcast_run pair s h.mirrors call
  refine ⟨mirrors_run h.mirrors call, ?_, ?_⟩
  · rw [hbroadcast]
    intro delta hdelta
    rcases List.mem_append.mp hdelta with hold | hnew
    · exact (h.bounded delta hold).trans hle
    · exact (hnumbers delta hnew).2
  · rw [hbroadcast, List.pairwise_append]
    refine ⟨h.ordered, List.pairwise_of_forall_mem_list fun a ha b hb => ?_,
      fun delta hold delta' hnew => ?_⟩
    · rw [(hnumbers a ha).1, (hnumbers b hb).1]
    · rw [(hnumbers delta' hnew).1]
      exact (h.bounded delta hold).trans (Nat.le_succ _)

theorem numbered_runCalls (calls : List Call) : Numbered pair (runCalls calls) := by
  induction calls using List.reverseRecOn with
  | nil => exact numbered_empty
  | append_singleton calls call ih =>
    rw [runCalls, List.foldl_append]
    exact numbered_run ih call

/-- A call brings to its client what has happened since a book in its course. -/
theorem tracks_snapshot (h : Numbered pair s) (hv : v ∈ callBooks s call)
    (hcall : Faithful pair s call ∨ Settled pair s call v) :
    Tracks pair (v.sequences pair) (levels v pair) (call.run s) := by
  obtain ⟨hle, hend⟩ := @numbers_callBooks v pair s call h.mirrors hv
  refine ⟨hend, ?_⟩
  obtain ⟨-, deltas, hbroadcast, hnumbers⟩ := @broadcast_run pair s h.mirrors call
  have hold : (broadcast pair s.db.outboxEvents).filter
      (fun delta => v.sequences pair < delta.sequenceId) = [] :=
    List.filter_eq_nil_iff.mpr fun delta hdelta => by
      simpa using (h.bounded delta hdelta).trans hle
  rw [later, hbroadcast, List.filter_append, hold, List.nil_append]
  rcases hle.eq_or_lt with heq | hlt
  · have hall : deltas.filter (fun delta => v.sequences pair < delta.sequenceId) = deltas :=
      List.filter_eq_self.mpr fun delta hdelta => by
        simp [← heq, (hnumbers delta hdelta).1]
    rcases hcall with hfaithful | ⟨hlate, -⟩
    · obtain ⟨deltas', hupdates⟩ := exists_updates h.mirrors hfaithful
      obtain rfl := List.append_cancel_left (hbroadcast.symm.trans hupdates.broadcast_eq)
      rw [hall, hupdates.brings v hv]
    · exact absurd hlate heq.not_lt
  · have hnone : deltas.filter (fun delta => v.sequences pair < delta.sequenceId) = [] :=
      List.filter_eq_nil_iff.mpr fun delta hdelta => by
        have hnumber := (hnumbers delta hdelta).1
        simpa [hnumber] using Nat.succ_le_of_lt hlt
    rw [hnone, List.foldl_nil]
    rcases hcall with hfaithful | ⟨-, hsame⟩
    · obtain ⟨deltas', hupdates⟩ := exists_updates h.mirrors hfaithful
      exact hupdates.late v hv hlt
    · exact hsame.levels_eq.symm

/-- A client that has the book before a call has it after the call. -/
theorem tracks_run {number : ℕ} {client : LevelBook} (h : Numbered pair s)
    (htracks : Tracks pair number client s) (hfaithful : Faithful pair s call) :
    Tracks pair number client (call.run s) := by
  obtain ⟨hle, deltas, hbroadcast, hnumbers⟩ := @broadcast_run pair s h.mirrors call
  obtain ⟨deltas', hupdates⟩ := exists_updates h.mirrors hfaithful
  obtain rfl := List.append_cancel_left (hbroadcast.symm.trans hupdates.broadcast_eq)
  have hall : deltas.filter (fun delta => number < delta.sequenceId) = deltas :=
    List.filter_eq_self.mpr fun delta hdelta => by
      have hnumber := (hnumbers delta hdelta).1
      simpa [hnumber] using Nat.lt_succ_of_le htracks.number_le
  refine ⟨htracks.number_le.trans hle, ?_⟩
  rw [later, hbroadcast, List.filter_append, hall, List.foldl_append, ← later, htracks.current]
  exact hupdates.brings s.valkey (start_mem_callBooks call)

theorem tracks_calls {number : ℕ} {client : LevelBook} (calls : List Call) (h : Numbered pair s)
    (htracks : Tracks pair number client s) (hfaithful : FaithfulRun pair s calls) :
    Tracks pair number client (calls.foldl Call.run s) := by
  induction calls generalizing s with
  | nil => exact htracks
  | cons call calls ih =>
    exact ih (numbered_run h call) (tracks_run h htracks hfaithful.1) hfaithful.2

/-- The order of the numbers is the order of the broadcast. -/
theorem laterDeltas_eq (snapshot : GetOrderBookResponse) (h : Numbered snapshot.pair s) :
    laterDeltas snapshot s.db.outboxEvents =
      later snapshot.pair snapshot.sequenceId s.db.outboxEvents := by
  refine List.mergeSort_of_pairwise ((h.ordered.filter _).imp fun {a b} hle => ?_)
  exact decide_eq_true hle

/-- In every run a client that took a snapshot of the whole book, at any point of a call,
follows the book as long as the calls report what they leave. -/
theorem follows_run (before : List Call) (call : Call) (after : List Call) (v : Valkey)
    (pair : TradingSymbol) (depth : ℕ) (hv : v ∈ callBooks (runCalls before) call)
    (hcovers : Covers v pair depth)
    (hcall : Faithful pair (runCalls before) call ∨ Settled pair (runCalls before) call v)
    (hafter : FaithfulRun pair (call.run (runCalls before)) after) :
    Follows (getOrderBook v pair depth) (runCalls (before ++ call :: after)) := by
  have hbefore := @numbered_runCalls pair before
  have htracks := tracks_calls after (numbered_run hbefore call)
    (tracks_snapshot hbefore hv hcall) hafter
  have hnumbered := @numbered_runCalls pair (before ++ call :: after)
  have hrun : runCalls (before ++ call :: after) =
      after.foldl Call.run (call.run (runCalls before)) := by
    rw [runCalls, List.foldl_append]
    rfl
  intro depth' hcovers'
  calc replayed (getOrderBook v pair depth) (runCalls (before ++ call :: after)).db.outboxEvents
      = (later pair (v.sequences pair)
          (runCalls (before ++ call :: after)).db.outboxEvents).foldl applyDelta
            (levels v pair) := by
        rw [replayed, laterDeltas_eq (getOrderBook v pair depth) hnumbered,
          levelsOf_getOrderBook hcovers]
        rfl
    _ = levels (runCalls (before ++ call :: after)).valkey pair := by
        rw [hrun, htracks.current]
    _ = levelsOf (getOrderBook (runCalls (before ++ call :: after)).valkey pair depth') :=
        (levelsOf_getOrderBook hcovers').symm

/-! ### A cancellation, and an offer -/

theorem faithful_cancelOrder {request : CancelOrderRequest}
    (h : ∀ order ∈ s.db.findById request.orderId,
      TotalExact (s.valkey.removeOrder request.orderId pair order.side) pair order.side order.price) :
    Faithful pair s (.cancelOrder request) :=
  fun order hfind _ => h order (findById_of_findCancellable hfind).1

/-- One unit is offered to a book. -/
def sell (userId : Uuid) (price : ℕ) : Call :=
  .createOrder (limitOrder userId .sell price 1) ⟨userId, userId, fun _ => userId⟩ .ok

/-- A client with two levels sees that one of them is cancelled. -/
theorem follows_run_cancelled :
    let calls := [sell "first" 100, sell "second" 101, .cancelOrder ⟨"first", "first", "k"⟩]
    (runCalls calls).db.orders.map Order.status = [.cancelled, .opened] ∧
      Follows (getOrderBook (runCalls (calls.take 2)).valkey ⟨.eth, .usdt⟩ 2) (runCalls calls) := by
  have hstart := (@numbered_runCalls ⟨.eth, .usdt⟩ [sell "first" 100]).mirrors
  exact ⟨by decide +kernel,
    follows_run [sell "first" 100] (sell "second" 101) [.cancelOrder ⟨"first", "first", "k"⟩]
      ((sell "second" 101).run (runCalls [sell "first" 100])).valkey ⟨.eth, .usdt⟩ 2
      (run_mem_callBooks hstart (sell "second" 101)) (by decide +kernel)
      (.inr ⟨by decide +kernel, .refl _ _⟩)
      ⟨faithful_cancelOrder (by decide +kernel), trivial⟩⟩

/-- A client with the empty book does not see what is offered to it. -/
theorem not_follows_offer :
    (runCalls []).valkey ∈ callBooks (runCalls []) (sell "seller" 100) ∧
      Covers (runCalls []).valkey ⟨.eth, .usdt⟩ 1 ∧
        ¬Follows (getOrderBook (runCalls []).valkey ⟨.eth, .usdt⟩ 1)
          (runCalls [sell "seller" 100]) := by
  refine ⟨start_mem_callBooks _, by decide +kernel, fun h => ?_⟩
  have hlevel := congrFun (congrFun (h 1 (by decide +kernel)) .sell) 10000000000
  exact absurd hlevel (by decide +kernel)

end EtherTrade.OrderBookStreamLaws
