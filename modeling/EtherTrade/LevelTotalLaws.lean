import EtherTrade.OrderBookLevels

/-!
# The total of a level

`getLevelTotalQuantity` adds up what remains of some orders of a side. Which ones depends on
their prices and on their places in the sorted set, not on what remains of them: the total is
right for all remaining amounts just when these are the orders at the price.
-/

namespace EtherTrade.LevelTotalLaws

open DecimalNumbers KeyedRows GroupedTotals AccountsSchema OrdersSchema OrderBook
open RestingOrders MatchingLoop OrderBookLevels SortedSets
open TradeSettlement (TradingSymbol)

variable {v : Valkey} {pair : TradingSymbol} {side : OrderSide} {price : ℤ}
  {remaining : Uuid → ℤ} {orderIds : List Uuid} {orderId : Uuid}

/-- The book in which so much remains of each order. -/
def withRemaining (v : Valkey) (remaining : Uuid → ℤ) : Valkey :=
  { v with
    orderDetails := fun orderId =>
      match v.orderDetails orderId with
      | .full entry => .full { entry with remainingAmount := remaining orderId }
      | details => details }

theorem getOrderDetails_withRemaining (v : Valkey) (remaining : Uuid → ℤ) (orderId : Uuid) :
    (withRemaining v remaining).getOrderDetails orderId =
      (v.getOrderDetails orderId).map fun entry =>
        { entry with remainingAmount := remaining orderId } := by
  simp only [Valkey.getOrderDetails, withRemaining]
  cases v.orderDetails orderId <;> rfl

/-- What remains of all orders of the side at the price. -/
def levelTotal (v : Valkey) (pair : TradingSymbol) (side : OrderSide) (price : ℤ) : ℤ :=
  (((sideOrders v pair side).filter fun e => e.price = price).map
    OrderbookEntry.remainingAmount).sum

/-- Whatever remains of the orders, the total that is returned is that of the orders at the price
and of no others. -/
def LevelTotalsExact (v : Valkey) (pair : TradingSymbol) (side : OrderSide) (price : ℤ) : Prop :=
  ∀ remaining : Uuid → ℤ, (∀ orderId, 0 < remaining orderId) →
    (withRemaining v remaining).getLevelTotalQuantity pair side price =
      levelTotal (withRemaining v remaining) pair side price

/-- The orders that pass a test of their prices, by their ids. -/
def idsAt (v : Valkey) (test : ℤ → Bool) (orderIds : List Uuid) : List Uuid :=
  orderIds.filter fun orderId => (v.getOrderDetails orderId).any fun e => test e.price

theorem mem_idsAt {test : ℤ → Bool} : orderId ∈ idsAt v test orderIds ↔
    orderId ∈ orderIds ∧ ∃ e ∈ v.getOrderDetails orderId, test e.price = true := by
  rw [idsAt, List.mem_filter, Option.any_eq_true]
  exact and_congr_right fun _ => exists_congr fun _ => Iff.rfl

/-- A sum of remaining amounts over the orders that pass a test of their prices. -/
theorem sum_remaining (test : ℤ → Bool) (orderIds : List Uuid) :
    (((orderIds.filterMap (withRemaining v remaining).getOrderDetails).filter
      fun e => test e.price).map OrderbookEntry.remainingAmount).sum =
        ((idsAt v test orderIds).map remaining).sum := by
  induction orderIds with
  | nil => rfl
  | cons orderId orderIds ih =>
    have hdetails := getOrderDetails_withRemaining v remaining orderId
    rw [idsAt] at ih ⊢
    cases hfound : v.getOrderDetails orderId with
    | none =>
      rw [hfound, Option.map_none] at hdetails
      simpa [List.filterMap_cons_none hdetails, hfound] using ih
    | some e =>
      rw [hfound, Option.map_some] at hdetails
      by_cases htest : test e.price = true
      · simpa [List.filterMap_cons_some hdetails, hfound, htest] using ih
      · simpa [List.filterMap_cons_some hdetails, hfound, htest] using ih

/-- The test that the code makes of a price. -/
def readsAs (price : ℤ) (other : ℤ) : Bool :=
  other / scale = ofNumber (toNumber (price / scale))

theorem levelTotalsExact_iff_perm : LevelTotalsExact v pair side price ↔
    (idsAt v (readsAs price) ((v.orderbooks pair side).ranked.take 501)).Perm
      (idsAt v (fun other => other = price) (v.orderbooks pair side).ranked) := by
  rw [← sums_eq_iff_perm]
  refine forall_congr' fun remaining => imp_congr_right fun _ => ?_
  have hall : levelTotal (withRemaining v remaining) pair side price =
      ((idsAt v (fun other => other = price) (v.orderbooks pair side).ranked).map
        remaining).sum := by
    have hperm : (sideOrders (withRemaining v remaining) pair side).Perm
        ((v.orderbooks pair side).ranked.filterMap (withRemaining v remaining).getOrderDetails) :=
      opposingOrderIds_perm.filterMap _
    rw [levelTotal, ((hperm.filter _).map _).sum_eq,
      sum_remaining (fun other => decide (other = price))]
  rw [hall, ← sum_remaining (readsAs price)]
  rfl

/-- For every book, side and price the total is exact if and only if no order at the price is
behind the first 501 of the sorted set, and among these just the orders at the price are at the
decimal that its binary number reads as. -/
theorem levelTotalsExact_iff (v : Valkey) (pair : TradingSymbol) (side : OrderSide) (price : ℤ) :
    LevelTotalsExact v pair side price ↔ TotalExact v pair side price := by
  have hnodup : (v.orderbooks pair side).ranked.Nodup := (v.orderbooks pair side).nodup_ranked
  have hsame : (idsAt v (readsAs price) ((v.orderbooks pair side).ranked.take 501)).Perm
        (idsAt v (fun other => other = price) (v.orderbooks pair side).ranked) ↔
      ∀ orderId, orderId ∈ idsAt v (readsAs price) ((v.orderbooks pair side).ranked.take 501) ↔
        orderId ∈ idsAt v (fun other => other = price) (v.orderbooks pair side).ranked :=
    List.perm_ext_iff_of_nodup ((hnodup.sublist (List.take_sublist _ _)).filter _)
      (hnodup.filter _)
  rw [levelTotalsExact_iff_perm, hsame]
  simp only [mem_idsAt, readsAs, decide_eq_true_eq]
  constructor
  · intro h
    refine ⟨fun orderId hfirst e he => ?_, fun orderId hrest e he hprice => ?_⟩
    · have hranked := List.mem_of_mem_take hfirst
      constructor
      · intro hreads
        obtain ⟨-, e', he', hprice⟩ := (h orderId).mp ⟨hfirst, e, he, hreads⟩
        obtain rfl := Option.some.inj (he.symm.trans he')
        exact hprice
      · intro hprice
        obtain ⟨-, e', he', hreads⟩ := (h orderId).mpr ⟨hranked, e, he, hprice⟩
        obtain rfl := Option.some.inj (he.symm.trans he')
        exact hreads
    · have hcounted := (h orderId).mpr ⟨List.mem_of_mem_drop hrest, e, he, hprice⟩
      exact List.disjoint_take_drop hnodup le_rfl hcounted.1 hrest
  · rintro ⟨hfirst, hrest⟩ orderId
    constructor
    · rintro ⟨hmem, e, he, hreads⟩
      exact ⟨List.mem_of_mem_take hmem, e, he, (hfirst orderId hmem e he).mp hreads⟩
    · rintro ⟨hranked, e, he, hprice⟩
      rw [← List.take_append_drop 501 (v.orderbooks pair side).ranked, List.mem_append] at hranked
      rcases hranked with hmem | hmem
      · exact ⟨hmem, e, he, (hfirst orderId hmem e he).mpr hprice⟩
      · exact absurd hprice (hrest orderId hmem e he)

/-! ### A price of seventeen digits -/

/-- An ask for one unit at 100000000.00000002. -/
def seventeenDigits : OrderbookEntry :=
  ⟨"a", "seller", ⟨.eth, .usdt⟩, .sell, .limit, 10000000000000002, 100000000, 100000000⟩

/-- The binary number of the price reads as 100000000.00000001, and nothing rests there. -/
theorem not_levelTotal_seventeenDigits : ¬∀ v book pair side price, Holds v book →
    v.getLevelTotalQuantity pair side price = levelTotal v pair side price := by
  intro h
  have hexact := h (Valkey.empty.rehydrate [seventeenDigits]) _ ⟨.eth, .usdt⟩ .sell
    10000000000000002 (holds_rehydrate [seventeenDigits] (by unfold KeyUnique; decide))
  exact absurd hexact (by decide +kernel)

end EtherTrade.LevelTotalLaws
