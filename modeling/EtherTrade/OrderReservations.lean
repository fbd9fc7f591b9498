import EtherTrade.OrdersTransactions
import EtherTrade.TradeSettlementCorrectness

/-!
# What an order reserves and what its trades take

The orders service locks an amount for a new order and unlocks what is left of it when
the order is cancelled; the accounts service takes from locked what each trade of the
order costs. Both work on texts with eight decimals, the first rounding to the nearest
and the second down. Here the amounts are numbers of units, and they are compared.
-/

namespace EtherTrade.OrderReservations

open DecimalNumbers AccountsSchema OrdersSchema MatchingEngine OrdersTransactions
open TradeSettlement (Participant calculateSettlementAmounts)
open TradeSettlementCorrectness (Figures figures)

/-- A number of a request that a column stores as it is. -/
def AtMostEightDecimals (n : NumberText) : Prop :=
  ∃ units : ℤ, n.value = .finite (units / scale)

/-- The payload of a trade event as the settlement consumer reads it. -/
def settledTrade (e : TradeExecutedEvent) : TradeSettlement.TradeExecutedEvent where
  tradeId := e.tradeId
  buyerUserId := e.buyerUserId
  sellerUserId := e.sellerUserId
  symbol := e.symbol
  price := .finite (e.price / scale)
  quantity := .finite (e.quantity / scale)
  buyerLimitPrice := .finite (e.buyerLimitPrice / scale)

/-- The account of a trade that an order on this side is reserved on. -/
def reservedOn : OrderSide → Participant
  | .buy => .buyerQuote
  | .sell => .sellerBase

/-- What the settlement of a trade takes from locked. -/
def takenFromLocked (side : OrderSide) (e : TradeExecutedEvent) : Option ℤ :=
  (figures (calculateSettlementAmounts (settledTrade e))).map fun f =>
    -(f.change (reservedOn side)).2

/-- A trade of the order at a price no worse than its limit. -/
structure Fills (order : Order) (e : TradeExecutedEvent) : Prop where
  quantity_pos : 0 < e.quantity
  price_nonneg : 0 ≤ e.price
  symbol : e.symbol = order.pair
  buy : order.side = .buy → e.buyOrderId = order.id ∧ e.buyerUserId = order.userId ∧
    e.buyerLimitPrice = order.price ∧ e.price ≤ order.price
  sell : order.side = .sell → e.sellOrderId = order.id ∧ e.sellerUserId = order.userId ∧
    order.price ≤ e.price

def filledQuantity (fills : List TradeExecutedEvent) : ℤ :=
  (fills.map TradeExecutedEvent.quantity).sum

def takenBySettlements (side : OrderSide) (fills : List TradeExecutedEvent) : Option ℤ :=
  (fills.mapM (takenFromLocked side)).map List.sum

/-- The order that is cancelled after the fills. -/
def cancelledAfter (order : Order) (fills : List TradeExecutedEvent) : Order :=
  { order with
    filledAmount := filledQuantity fills
    remainingAmount := order.amount - filledQuantity fills
    status := .cancelled }

/-- What has left locked for an order that is filled, or cancelled after the fills. -/
def removedFromLocked (order : Order) (fills : List TradeExecutedEvent) : Option ℤ := do
  let taken ← takenBySettlements order.side fills
  if filledQuantity fills = order.amount then return taken
  else
    let unlocked ← (unlockAmount (cancelledAfter order fills)).toNumeric
    return taken + unlocked

/-! ### Amounts as numbers -/

/-- What an open order still reserves. -/
def reserve (side : OrderSide) (price remaining : ℤ) : ℤ :=
  match side with
  | .buy => roundHalfUp (price / scale * (remaining / scale))
  | .sell => remaining

/-- What a trade takes from the reservation on one side of it. -/
def share (side : OrderSide) (e : TradeExecutedEvent) : ℤ :=
  match side with
  | .buy => e.price * e.quantity / 10 ^ 8 +
      max 0 (e.buyerLimitPrice - e.price) * e.quantity / 10 ^ 8
  | .sell => e.quantity

variable {side : OrderSide} {order : Order} {e : TradeExecutedEvent}
  {fills : List TradeExecutedEvent} {price remaining quantity : ℤ}

theorem units_nonneg {u : ℤ} (h : 0 ≤ u) : (0 : ℚ) ≤ u / scale :=
  div_nonneg (Int.cast_nonneg h) scale_pos.le

theorem figures_settledTrade (hprice : 0 ≤ e.price) (hquantity : 0 ≤ e.quantity) :
    figures (calculateSettlementAmounts (settledTrade e)) =
      some ⟨e.price * e.quantity / 10 ^ 8, e.quantity,
        max 0 (e.buyerLimitPrice - e.price) * e.quantity / 10 ^ 8⟩ := by
  have hcost : (BigNumber.finite (e.price / scale * (e.quantity / scale))).toFixed.toNumeric =
      some (e.price * e.quantity / 10 ^ 8) := by
    rw [toNumeric_toFixed (mul_nonneg (units_nonneg hprice) (units_nonneg hquantity)),
      roundDown_units_mul]
  have hbase : (BigNumber.finite (e.quantity / scale)).toFixed.toNumeric = some e.quantity := by
    rw [toNumeric_toFixed (units_nonneg hquantity), roundDown_units]
  by_cases hbetter : e.price < e.buyerLimitPrice
  · have hgreater : ((settledTrade e).buyerLimitPrice.isGreaterThan (settledTrade e).price) = true := by
      have hq : (e.price / scale : ℚ) < e.buyerLimitPrice / scale :=
        (div_lt_div_iff_of_pos_right scale_pos).mpr (Int.cast_lt.mpr hbetter)
      simpa [settledTrade, BigNumber.isGreaterThan] using hq
    have hdiff : (e.buyerLimitPrice / scale + -(e.price / scale) : ℚ) =
        ((e.buyerLimitPrice - e.price : ℤ) : ℚ) / scale := by
      rw [Int.cast_sub, sub_div, sub_eq_add_neg]
    have hrefund : (BigNumber.finite ((e.buyerLimitPrice / scale + -(e.price / scale)) *
        (e.quantity / scale))).toFixed.toNumeric =
          some ((e.buyerLimitPrice - e.price) * e.quantity / 10 ^ 8) := by
      rw [hdiff, toNumeric_toFixed (mul_nonneg (units_nonneg (by omega)) (units_nonneg hquantity)),
        roundDown_units_mul]
    rw [max_eq_right (by omega)]
    simp only [figures, calculateSettlementAmounts, hgreater, if_true]
    simp only [settledTrade, BigNumber.minus, BigNumber.negated, BigNumber.plus,
      BigNumber.multipliedBy, hcost, hbase, hrefund]
    rfl
  · have hgreater : ¬((settledTrade e).buyerLimitPrice.isGreaterThan (settledTrade e).price) = true := by
      have hq : ¬(e.price / scale : ℚ) < e.buyerLimitPrice / scale := fun h =>
        hbetter (Int.cast_lt.mp ((div_lt_div_iff_of_pos_right scale_pos).mp h))
      simpa [settledTrade, BigNumber.isGreaterThan] using hq
    rw [max_eq_left (by omega), zero_mul, Int.zero_ediv]
    simp only [figures, calculateSettlementAmounts, hgreater, Bool.false_eq_true, if_false]
    simp only [settledTrade, BigNumber.multipliedBy, hcost, hbase]
    rfl

theorem takenFromLocked_eq (hprice : 0 ≤ e.price) (hquantity : 0 ≤ e.quantity) :
    takenFromLocked side e = some (share side e) := by
  rw [takenFromLocked, figures_settledTrade hprice hquantity]
  cases side <;> simp [reservedOn, Figures.change, share, add_comm]

theorem takenBySettlements_eq (hfills : ∀ e ∈ fills, Fills order e) :
    takenBySettlements order.side fills = some (fills.map (share order.side)).sum := by
  suffices h : fills.mapM (takenFromLocked order.side) = some (fills.map (share order.side)) by
    rw [takenBySettlements, h, Option.map_some]
  induction fills with
  | nil => rfl
  | cons e fills ih =>
    have he := hfills e List.mem_cons_self
    have ih := ih fun x hx => hfills x (List.mem_cons_of_mem _ hx)
    simp [List.mapM_cons, takenFromLocked_eq he.price_nonneg he.quantity_pos.le, ih]

theorem newOrder_side {request : CreateOrderRequest} {newId : Uuid}
    (h : newOrder request newId = some order) : order.side = request.side := by
  simp only [newOrder, Option.bind_eq_bind, Option.bind_eq_some_iff, Option.pure_def,
    Option.some.injEq] at h
  obtain ⟨price, -, amount, -, rfl⟩ := h
  rfl

theorem toColumn_of_atMostEightDecimals {n : NumberText} {units : ℤ} (hn : AtMostEightDecimals n)
    (hpositive : isPositive n.value = true) (h : n.value.toColumn = some units) :
    n.value = .finite (units / scale) ∧ 0 < units := by
  obtain ⟨u, hu⟩ := hn
  rw [hu] at hpositive h
  have hq : (0 : ℚ) < u / scale := by simpa [isPositive] using hpositive
  have hpos : 0 < u := Int.cast_pos.mp ((div_pos_iff_of_pos_right scale_pos).mp hq)
  obtain rfl := toColumn_units hpos.le h
  exact ⟨hu, hpos⟩

/-- A new order stores the numbers of a request that has at most eight decimals. -/
theorem newOrder_values {request : ValidRequest} {newId : Uuid}
    (hprice : AtMostEightDecimals request.val.price)
    (hamount : AtMostEightDecimals request.val.amount)
    (h : newOrder request.val newId = some order) :
    request.val.price.value = .finite (order.price / scale) ∧ 0 < order.price ∧
      request.val.amount.value = .finite (order.amount / scale) ∧ 0 < order.amount := by
  obtain ⟨hpricePositive, hamountPositive⟩ := validateCreateOrderRequest_eq_none request.property
  simp only [newOrder, Option.bind_eq_bind, Option.bind_eq_some_iff, Option.pure_def,
    Option.some.injEq] at h
  obtain ⟨price, hprice', amount, hamount', rfl⟩ := h
  obtain ⟨hpriceValue, hpricePos⟩ := toColumn_of_atMostEightDecimals hprice hpricePositive hprice'
  obtain ⟨hamountValue, hamountPos⟩ :=
    toColumn_of_atMostEightDecimals hamount hamountPositive hamount'
  exact ⟨hpriceValue, hpricePos, hamountValue, hamountPos⟩

theorem lockAmount_toNumeric {request : CreateOrderRequest} {amount : ℤ} (hprice : 0 ≤ price)
    (hamount : 0 ≤ amount) (hp : request.price.value = .finite (price / scale))
    (ha : request.amount.value = .finite (amount / scale)) :
    (lockAmount request).toNumeric = some (reserve request.side price amount) := by
  cases hside : request.side with
  | buy =>
    simp only [lockAmount, hside, hp, ha, BigNumber.multipliedBy, reserve]
    exact toNumeric_toFixedHalfUp (mul_nonneg (units_nonneg hprice) (units_nonneg hamount))
  | sell =>
    simp only [lockAmount, hside, ha, reserve]
    rw [toNumeric_toFixedHalfUp (units_nonneg hamount), roundHalfUp_units]

theorem unlockAmount_toNumeric (hprice : 0 ≤ order.price) (hremaining : 0 ≤ order.remainingAmount) :
    (unlockAmount order).toNumeric =
      some (reserve order.side order.price order.remainingAmount) := by
  cases hside : order.side with
  | buy =>
    simp only [unlockAmount, hside, reserve]
    exact toNumeric_toFixedHalfUp (mul_nonneg (units_nonneg hprice) (units_nonneg hremaining))
  | sell =>
    simp only [unlockAmount, hside, reserve]
    rw [toNumeric_toFixedHalfUp (units_nonneg hremaining), roundHalfUp_units]

theorem reserve_buy : reserve .buy price remaining =
    (price * remaining + 5 * 10 ^ 7) / 10 ^ 8 := roundHalfUp_units_mul price remaining

theorem reserve_zero : reserve side price 0 = 0 := by
  cases side with
  | buy => rw [reserve_buy, mul_zero]; rfl
  | sell => rfl

theorem reserve_nonneg (hprice : 0 ≤ price) (hremaining : 0 ≤ remaining) :
    0 ≤ reserve side price remaining := by
  cases side with
  | buy => exact roundHalfUp_nonneg (mul_nonneg (units_nonneg hprice) (units_nonneg hremaining))
  | sell => exact hremaining

/-- A fill leaves enough for what the order still reserves. -/
theorem Fills.share_add_reserve_le (h : Fills order e) :
    share order.side e + reserve order.side order.price (remaining - e.quantity) ≤
      reserve order.side order.price remaining := by
  cases hside : order.side with
  | buy =>
    obtain ⟨-, -, hlimit, hle⟩ := h.buy hside
    have hsum : e.price * e.quantity + (order.price - e.price) * e.quantity +
        order.price * (remaining - e.quantity) = order.price * remaining := by ring
    simp only [share, reserve_buy, hlimit, max_eq_right (sub_nonneg.mpr hle)]
    omega
  | sell => simp [share, reserve]

end EtherTrade.OrderReservations
