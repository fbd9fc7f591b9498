import EtherTrade.FirstKeys
import EtherTrade.OrderBookLevels

/-!
# The depth of the order book

`getOrderBook` reads twice as many orders of a side as it is to return levels. Its levels
are the best ones of the whole book if the orders at these have room in what is read.
-/

namespace EtherTrade.OrderBookDepthLaws

open DecimalNumbers KeyedRows GroupedTotals FirstKeys AccountsSchema OrdersSchema OrderBook
open RestingOrders MatchingLoop OrderBookStream OrderBookLevels SortedSets
open TradeSettlement (TradingSymbol)

variable {v : Valkey} {book : Book} {pair : TradingSymbol} {side : OrderSide} {depth : ℕ}
  {entries : List OrderbookEntry} {orderIds : List Uuid} {price : ℤ} {e : OrderbookEntry}

/-! ### The levels of the whole book -/

/-- The price is at least as good on the side: bids are to be high and asks low. -/
def AsGood : OrderSide → ℤ → ℤ → Prop
  | .buy, price, other => other ≤ price
  | .sell, price, other => price ≤ other

instance : ∀ side, DecidableRel (AsGood side)
  | .buy => fun price other => inferInstanceAs (Decidable (other ≤ price))
  | .sell => fun price other => inferInstanceAs (Decidable (price ≤ other))

instance : Std.Total (AsGood side) where
  total price other := by
    cases side with
    | buy => exact le_total other price
    | sell => exact le_total price other

instance : IsTrans ℤ (AsGood side) where
  trans price other third h h' := by
    cases side with
    | buy => exact le_trans h' h
    | sell => exact le_trans h h'

instance : Std.Antisymm (AsGood side) where
  antisymm price other h h' := by
    cases side with
    | buy => exact le_antisymm h' h
    | sell => exact le_antisymm h h'

/-- The level of the orders at a price. -/
def levelAt (entries : List OrderbookEntry) (price : ℤ) : OrderBookLevel :=
  let resting := entries.filter fun e => e.price = price
  ⟨price, (resting.map OrderbookEntry.remainingAmount).sum, resting.length⟩

/-- The prices of a side, in the order in which its sorted set has the orders. -/
def sidePrices (v : Valkey) (pair : TradingSymbol) (side : OrderSide) : List ℤ :=
  (sideOrders v pair side).map OrderbookEntry.price

/-- The best distinct prices of a side, so many or all of them. -/
def bestPrices (v : Valkey) (pair : TradingSymbol) (side : OrderSide) (depth : ℕ) : List ℤ :=
  (best (AsGood side) (sidePrices v pair side)).take depth

/-- The levels at these prices, of all orders of the side. -/
def bestLevels (v : Valkey) (pair : TradingSymbol) (side : OrderSide) (depth : ℕ) :
    List OrderBookLevel :=
  (bestPrices v pair side depth).map (levelAt (sideOrders v pair side))

/-- The book that is returned has the best levels of both sides. -/
def DepthExact (v : Valkey) (pair : TradingSymbol) (depth : ℕ) : Prop :=
  (getOrderBook v pair depth).bids = bestLevels v pair .buy depth ∧
    (getOrderBook v pair depth).asks = bestLevels v pair .sell depth

instance : Decidable (DepthExact v pair depth) := inferInstanceAs (Decidable (_ ∧ _))

/-- The best prices come up in their order, and all orders at them among the first ones of the
side, twice as many as there are to be levels. -/
structure DepthInReach (v : Valkey) (pair : TradingSymbol) (depth : ℕ) (side : OrderSide) :
    Prop where
  in_order : (sidePrices v pair side).eraseDups.take depth = bestPrices v pair side depth
  in_reach : ∀ orderId ∈ (opposingOrderIds v pair side.opposing).drop (depth * 2),
    ∀ e ∈ v.getOrderDetails orderId, e.price ∉ bestPrices v pair side depth

/-! ### The levels that are read -/

theorem priceLevels_eq : priceLevels v orderIds =
    ((orderIds.filterMap v.getOrderDetails).map OrderbookEntry.price).eraseDups.map
      (levelAt (orderIds.filterMap v.getOrderDetails)) := by
  have hsum (resting : List OrderbookEntry) :
      (resting.map fun entry => (entry.remainingAmount, 1)).sum =
        ((resting.map OrderbookEntry.remainingAmount).sum, resting.length) := by
    induction resting with
    | nil => rfl
    | cons e resting ih =>
      rw [List.map_cons, List.sum_cons, ih, List.map_cons, List.sum_cons, List.length_cons,
        Prod.mk_add_mk, Nat.add_comm 1]
  rw [priceLevels, totals_eq, List.map_map]
  refine List.map_congr_left fun price _ => ?_
  simp only [Function.comp_apply, hsum, levelAt]

theorem sideOrderIds_eq (h : 1 ≤ depth) : sideOrderIds v pair side depth =
    (opposingOrderIds v pair side.opposing).take (depth * 2) := by
  have hids : sideOrderIds v pair side depth = (opposingOrderIds v pair side.opposing).take
      (if depth = 0 then (v.orderbooks pair side).entries.length else depth * 2) := by
    cases side <;> rfl
  rw [hids, if_neg (by omega)]

/-- The orders of a side that are read. -/
def readOrders (v : Valkey) (pair : TradingSymbol) (side : OrderSide) (depth : ℕ) :
    List OrderbookEntry :=
  ((opposingOrderIds v pair side.opposing).take (depth * 2)).filterMap v.getOrderDetails

/-- The orders behind them. -/
def restOrders (v : Valkey) (pair : TradingSymbol) (side : OrderSide) (depth : ℕ) :
    List OrderbookEntry :=
  ((opposingOrderIds v pair side.opposing).drop (depth * 2)).filterMap v.getOrderDetails

theorem sideOrders_eq (v : Valkey) (pair : TradingSymbol) (side : OrderSide) (depth : ℕ) :
    sideOrders v pair side = readOrders v pair side depth ++ restOrders v pair side depth := by
  rw [readOrders, restOrders, ← List.filterMap_append, List.take_append_drop]
  rfl

theorem sidePrices_eq (v : Valkey) (pair : TradingSymbol) (side : OrderSide) (depth : ℕ) :
    sidePrices v pair side = (readOrders v pair side depth).map OrderbookEntry.price ++
      (restOrders v pair side depth).map OrderbookEntry.price := by
  rw [sidePrices, sideOrders_eq v pair side depth, List.map_append]

theorem in_reach_iff : (∀ orderId ∈ (opposingOrderIds v pair side.opposing).drop (depth * 2),
      ∀ e ∈ v.getOrderDetails orderId, e.price ∉ bestPrices v pair side depth) ↔
    ∀ price ∈ bestPrices v pair side depth,
      price ∉ (restOrders v pair side depth).map OrderbookEntry.price := by
  constructor
  · intro h price hprice hmem
    obtain ⟨e, he, rfl⟩ := List.mem_map.mp hmem
    obtain ⟨orderId, hid, hdetails⟩ := List.mem_filterMap.mp he
    exact h orderId hid e hdetails hprice
  · intro h orderId hid e he hprice
    exact h e.price hprice (List.mem_map_of_mem (List.mem_filterMap.mpr ⟨orderId, hid, he⟩))

theorem map_levelAt_eq_iff {prices prices' : List ℤ} {entries' : List OrderbookEntry} :
    prices.map (levelAt entries) = prices'.map (levelAt entries') ↔
      prices = prices' ∧ ∀ price ∈ prices', levelAt entries price = levelAt entries' price := by
  constructor
  · intro h
    have hprices := congrArg (List.map OrderBookLevel.price) h
    rw [List.map_map, List.map_map] at hprices
    have hsame : prices = prices' :=
      (List.map_id _).symm.trans (hprices.trans (List.map_id _))
    subst hsame
    exact ⟨rfl, fun price hprice => List.map_inj_left.mp h price hprice⟩
  · rintro ⟨rfl, h⟩
    exact List.map_congr_left h

/-- A part of the orders has a level in full if no other order is at its price. -/
theorem levelAt_append_iff {rest : List OrderbookEntry} :
    levelAt entries price = levelAt (entries ++ rest) price ↔
      price ∉ rest.map OrderbookEntry.price := by
  have hnone : rest.filter (fun e => e.price = price) = [] ↔
      price ∉ rest.map OrderbookEntry.price := by
    rw [List.filter_eq_nil_iff, List.mem_map]
    push Not
    simp only [decide_eq_true_eq, ne_eq]
  rw [← hnone]
  constructor
  · intro h
    have hcount := congrArg OrderBookLevel.orderCount h
    simp only [levelAt, List.filter_append, List.length_append] at hcount
    exact List.length_eq_zero_iff.mp (by omega)
  · intro h
    simp only [levelAt, List.filter_append, h, List.append_nil]

/-- One side has its best levels if and only if they are in reach. -/
theorem aggregateLevels_eq_iff (hdepth : 1 ≤ depth) :
    aggregateLevels v (sideOrderIds v pair side depth) depth = bestLevels v pair side depth ↔
      DepthInReach v pair depth side := by
  have hread : aggregateLevels v (sideOrderIds v pair side depth) depth =
      (((readOrders v pair side depth).map OrderbookEntry.price).eraseDups.take depth).map
        (levelAt (readOrders v pair side depth)) := by
    rw [aggregateLevels, sideOrderIds_eq hdepth, priceLevels_eq, max_eq_right hdepth,
      List.map_take]
    rfl
  have hfirst (h : ∀ price ∈ bestPrices v pair side depth,
        price ∉ (restOrders v pair side depth).map OrderbookEntry.price) :
      ((readOrders v pair side depth).map OrderbookEntry.price).eraseDups.take depth =
          bestPrices v pair side depth ↔
        (sidePrices v pair side).eraseDups.take depth = bestPrices v pair side depth := by
    rw [bestPrices, sidePrices_eq v pair side depth] at h ⊢
    exact take_eraseDups_iff h
  rw [hread, bestLevels, map_levelAt_eq_iff, sideOrders_eq v pair side depth]
  simp only [levelAt_append_iff]
  constructor
  · rintro ⟨hinOrder, hnone⟩
    exact ⟨(hfirst hnone).mp hinOrder, in_reach_iff.mpr hnone⟩
  · rintro ⟨hinOrder, hinReach⟩
    have hnone := in_reach_iff.mp hinReach
    exact ⟨(hfirst hnone).mpr hinOrder, hnone⟩

/-- For every book and depth, the levels returned are the best ones of the whole book if and only
if they are in reach on both sides. -/
theorem depthExact_iff (v : Valkey) (pair : TradingSymbol) (depth : ℕ) (hdepth : 1 ≤ depth) :
    DepthExact v pair depth ↔ ∀ side, DepthInReach v pair depth side := by
  have hsides : DepthExact v pair depth ↔
      DepthInReach v pair depth .buy ∧ DepthInReach v pair depth .sell :=
    and_congr (aggregateLevels_eq_iff hdepth) (aggregateLevels_eq_iff hdepth)
  rw [hsides]
  constructor
  · rintro ⟨hbuy, hsell⟩ side
    cases side with
    | buy => exact hbuy
    | sell => exact hsell
  · intro h
    exact ⟨h .buy, h .sell⟩

/-! ### Scores that order the prices -/

/-- The members of a sorted set are ranked by their scores. -/
theorem pairwise_ranked (z : SortedSet Uuid ℚ) :
    z.ranked.Pairwise fun a b => ∀ s ∈ z.score a, ∀ t ∈ z.score b, s ≤ t := by
  refine z.pairwise_lt_ranked.imp ?_
  rintro a b ⟨s, t, hs, ht, hlt⟩ s' hs' t' ht'
  obtain rfl := Option.some.inj (hs.symm.trans hs')
  obtain rfl := Option.some.inj (ht.symm.trans ht')
  rcases Prod.Lex.lt_iff.mp hlt with hless | ⟨heq, -⟩
  · exact hless.le
  · exact heq.le

/-- The scores of a side tell its prices apart. -/
def ScoresOrder (v : Valkey) (pair : TradingSymbol) (side : OrderSide) : Prop :=
  ∀ e ∈ sideOrders v pair side, ∀ e' ∈ sideOrders v pair side,
    bookScore e ≤ bookScore e' → e.price ≤ e'.price

/-- Then the prices come from the best one down. -/
theorem pairwise_sidePrices (h : Holds v book) (hscores : ScoresOrder v pair side) :
    (sidePrices v pair side).Pairwise (AsGood side) := by
  have hscore {orderId : Uuid} {e : OrderbookEntry}
      (hid : orderId ∈ (v.orderbooks pair side).ranked) (he : v.getOrderDetails orderId = some e) :
      (v.orderbooks pair side).score orderId = some (bookScore e) := by
    obtain ⟨e', he', hplace⟩ := h.mem_ranked.mp hid
    rw [h.getOrderDetails, he'] at he
    obtain rfl := Option.some.inj he
    rw [h.listed, he', Option.filter_some, if_pos (by simpa using hplace), Option.map_some]
  have hmem {orderId : Uuid} {e : OrderbookEntry} (hid : orderId ∈ (v.orderbooks pair side).ranked)
      (he : v.getOrderDetails orderId = some e) : e ∈ sideOrders v pair side :=
    List.mem_filterMap.mpr ⟨orderId, opposingOrderIds_perm.mem_iff.mpr hid, he⟩
  have hranked : (v.orderbooks pair side).ranked.Pairwise fun a b =>
      ∀ e, v.getOrderDetails a = some e → ∀ e', v.getOrderDetails b = some e' →
        e.price ≤ e'.price := by
    refine (pairwise_ranked _).imp_of_mem fun {a b} ha hb hle e he e' he' => ?_
    exact hscores e (hmem ha he) e' (hmem hb he') (hle _ (hscore ha he) _ (hscore hb he'))
  rw [sidePrices, sideOrders, opposingOrders, List.pairwise_map, List.pairwise_filterMap]
  cases side with
  | buy =>
    refine List.pairwise_reverse.mpr (hranked.imp fun {a b} hle e he e' he' => ?_)
    exact hle e' he' e he
  | sell => exact hranked

/-- Where the scores tell the prices apart, the best levels are in reach if and only if no more
orders rest at them than twice the depth. -/
theorem depthInReach_iff_of_scores (h : Holds v book) (hscores : ScoresOrder v pair side) :
    DepthInReach v pair depth side ↔
      ((sidePrices v pair side).filter fun price =>
        price ∈ bestPrices v pair side depth).length ≤ depth * 2 := by
  have hsorted := pairwise_sidePrices h hscores
  have hlength : (readOrders v pair side depth).length =
      min (depth * 2) (opposingOrderIds v pair side.opposing).length := by
    rw [readOrders, List.filterMap_length_eq_length.mpr fun orderId hid => ?_, List.length_take]
    have hranked := opposingOrderIds_perm.mem_iff.mp (List.mem_of_mem_take hid)
    obtain ⟨e, he, -⟩ := h.mem_ranked.mp hranked
    rw [h.getOrderDetails, he]
    rfl
  have hall : ((sidePrices v pair side).filter fun price =>
      price ∈ bestPrices v pair side depth).length ≤
        (opposingOrderIds v pair side.opposing).length := by
    refine (List.length_filter_le _ _).trans ?_
    rw [sidePrices, List.length_map]
    exact List.length_filterMap_le _ _
  have hroom : (∀ price ∈ bestPrices v pair side depth,
        price ∉ (restOrders v pair side depth).map OrderbookEntry.price) ↔
      ((sidePrices v pair side).filter fun price =>
        price ∈ bestPrices v pair side depth).length ≤ (readOrders v pair side depth).length := by
    rw [sidePrices_eq v pair side depth] at hsorted
    rw [bestPrices, sidePrices_eq v pair side depth, ← List.length_map OrderbookEntry.price]
    exact forall_notMem_rest_iff hsorted
  rw [hlength] at hroom
  constructor
  · rintro ⟨-, hinReach⟩
    exact (hroom.mp (in_reach_iff.mp hinReach)).trans (min_le_left _ _)
  · intro hle
    refine ⟨?_, in_reach_iff.mpr (hroom.mpr (le_min hle hall))⟩
    rw [bestPrices, eraseDups_eq_best hsorted]

/-! ### Three asks at one price -/

/-- An ask for one unit. -/
def ask (orderId : Uuid) (price : ℤ) : OrderbookEntry :=
  ⟨orderId, "seller", ⟨.eth, .usdt⟩, .sell, .limit, price * 100000000, 100000000, 100000000⟩

def threeAsks : List OrderbookEntry := [ask "a" 100, ask "b" 100, ask "c" 100]

/-- Two levels, with four orders. -/
def fourAsks : List OrderbookEntry := [ask "a" 100, ask "b" 100, ask "c" 101, ask "d" 101]

theorem depthExact_fourAsks :
    DepthExact (Valkey.empty.rehydrate fourAsks) ⟨.eth, .usdt⟩ 2 := by
  refine (depthExact_iff _ _ 2 (by decide)).mpr fun side => ⟨?_, ?_⟩
  · cases side <;> decide +kernel
  · cases side <;> decide +kernel

/-- Two of the three asks are read, and the level has only these. -/
theorem not_depthExact_threeAsks : ¬∀ v book pair depth, Holds v book → 1 ≤ depth →
    DepthExact v pair depth := by
  intro h
  have hexact := h (Valkey.empty.rehydrate threeAsks) _ ⟨.eth, .usdt⟩ 1
    (holds_rehydrate threeAsks (by unfold KeyUnique; decide)) le_rfl
  exact absurd hexact (by decide +kernel)

end EtherTrade.OrderBookDepthLaws
