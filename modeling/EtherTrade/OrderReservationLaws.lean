import Mathlib.Algebra.Order.BigOperators.Group.List
import EtherTrade.OrderReservations

/-!
# Reservations against what is taken from them

What the settlements of an order and its cancellation remove from locked is never more
than what was locked for it. For a buyer it may be less: what rounding drops from each
cost and from each refund is not returned.
-/

namespace EtherTrade.OrderReservationLaws

open DecimalNumbers AccountsSchema OrdersSchema MatchingEngine OrdersTransactions
open OrderReservations

variable {order : Order} {e : TradeExecutedEvent} {fills : List TradeExecutedEvent}

theorem filledQuantity_cons :
    filledQuantity (e :: fills) = e.quantity + filledQuantity fills := by
  simp [filledQuantity]

/-- The step of a fill carried through all fills of an order. -/
theorem shares_add_reserve_le (hfills : ∀ e ∈ fills, Fills order e) (remaining : ℤ) :
    (fills.map (share order.side)).sum +
        reserve order.side order.price (remaining - filledQuantity fills) ≤
      reserve order.side order.price remaining := by
  induction fills generalizing remaining with
  | nil => simp [filledQuantity]
  | cons e fills ih =>
    have he : share order.side e + reserve order.side order.price (remaining - e.quantity) ≤
        reserve order.side order.price remaining :=
      (hfills e List.mem_cons_self).share_add_reserve_le
    have ih := ih (fun x hx => hfills x (List.mem_cons_of_mem _ hx)) (remaining - e.quantity)
    have hrest : remaining - filledQuantity (e :: fills) =
        remaining - e.quantity - filledQuantity fills := by
      rw [filledQuantity_cons]
      ring
    rw [List.map_cons, List.sum_cons, hrest]
    omega

theorem shares_sell : (fills.map (share .sell)).sum = filledQuantity fills := rfl

/-- Settlements and a cancellation never take more than was locked for the order, and for
a seller they take all of it. -/
theorem removals_within_reservation (request : ValidRequest) (newId : Uuid) (order : Order)
    (fills : List TradeExecutedEvent) (hprice : AtMostEightDecimals request.val.price)
    (hamount : AtMostEightDecimals request.val.amount)
    (hcreated : newOrder request.val newId = some order) (hfills : ∀ e ∈ fills, Fills order e)
    (htotal : filledQuantity fills ≤ order.amount) :
    ∃ locked taken unlocked, (lockAmount request.val).toNumeric = some locked ∧
      takenBySettlements order.side fills = some taken ∧
      (unlockAmount (cancelledAfter order fills)).toNumeric = some unlocked ∧
      taken ≤ locked ∧ taken + unlocked ≤ locked ∧
      (order.side = .sell → taken + unlocked = locked ∧
        (filledQuantity fills = order.amount → taken = locked)) := by
  obtain ⟨hp, hpos, ha, hapos⟩ := newOrder_values hprice hamount hcreated
  have hside := newOrder_side hcreated
  have hrest : 0 ≤ order.amount - filledQuantity fills := sub_nonneg.mpr htotal
  have hlocked := lockAmount_toNumeric hpos.le hapos.le hp ha
  have hunlocked : (unlockAmount (cancelledAfter order fills)).toNumeric =
      some (reserve order.side order.price (order.amount - filledQuantity fills)) :=
    unlockAmount_toNumeric hpos.le hrest
  have hnonneg : 0 ≤ reserve order.side order.price (order.amount - filledQuantity fills) :=
    reserve_nonneg hpos.le hrest
  have hle := shares_add_reserve_le hfills order.amount
  rw [← hside] at hlocked
  refine ⟨_, _, _, hlocked, takenBySettlements_eq hfills, hunlocked, ?_, hle, fun hsell => ?_⟩
  · exact (le_add_of_nonneg_right hnonneg).trans hle
  · simp only [hsell, shares_sell, reserve]
    omega

/-- An order of `0.00000003` at `30000.5`, and the row it becomes. -/
def smallRequest : CreateOrderRequest where
  userId := "buyer"
  pair := ⟨.btc, .usdt⟩
  side := .buy
  type := .limit
  price := ⟨"30000.5", .finite ((3000050000000 : ℤ) / scale)⟩
  amount := ⟨"0.00000003", .finite ((3 : ℤ) / scale)⟩
  idempotencyKey := "small"

def smallOrder : Order where
  id := "order"
  userId := "buyer"
  pair := ⟨.btc, .usdt⟩
  side := .buy
  type := .limit
  price := 3000050000000
  amount := 3
  filledAmount := 0
  remainingAmount := 3
  status := .opened
  idempotencyKey := "small"

def smallTrade (price quantity : ℤ) : TradeExecutedEvent where
  tradeId := "trade"
  buyOrderId := "order"
  sellOrderId := "ask"
  buyerUserId := "buyer"
  sellerUserId := "seller"
  symbol := ⟨.btc, .usdt⟩
  price
  quantity
  buyerLimitPrice := 3000050000000
  buyerFee := 0
  sellerFee := 0
  sequenceId := 1

theorem fills_smallTrade {price quantity : ℤ} (hprice : 0 ≤ price) (hlimit : price ≤ 3000050000000)
    (hquantity : 0 < quantity) : Fills smallOrder (smallTrade price quantity) :=
  ⟨hquantity, hprice, rfl, fun _ => ⟨rfl, rfl, rfl, hlimit⟩, nofun⟩

theorem removals_within_reservation_small :
    ∃ locked taken unlocked, (lockAmount smallRequest).toNumeric = some locked ∧
      takenBySettlements .buy [smallTrade 3000000000000 1, smallTrade 3000050000000 1] =
        some taken ∧
      (unlockAmount (cancelledAfter smallOrder
        [smallTrade 3000000000000 1, smallTrade 3000050000000 1])).toNumeric = some unlocked ∧
      taken ≤ locked ∧ taken + unlocked ≤ locked ∧
      (OrderSide.buy = .sell → taken + unlocked = locked ∧
        (filledQuantity [smallTrade 3000000000000 1, smallTrade 3000050000000 1] = 3 →
          taken = locked)) :=
  removals_within_reservation ⟨smallRequest, by decide +kernel⟩ "order" smallOrder _ ⟨_, rfl⟩
    ⟨_, rfl⟩ (by decide +kernel)
    (by
      intro e he
      simp only [List.mem_cons, List.not_mem_nil, or_false] at he
      rcases he with rfl | rfl
      · exact fills_smallTrade (by decide) (by decide) (by decide)
      · exact fills_smallTrade (by decide) (by decide) (by decide))
    (by decide)

/-! ### What rounding keeps locked -/

/-- The digits behind the eighth decimal that rounding drops: of each cost and each
refund, and of what is unlocked at the end. -/
def droppedDigits (order : Order) (fills : List TradeExecutedEvent) : ℤ :=
  (fills.map fun e => e.price * e.quantity % 10 ^ 8 +
    (order.price - e.price) * e.quantity % 10 ^ 8).sum +
      (order.price * (order.amount - filledQuantity fills) + 5 * 10 ^ 7) % 10 ^ 8

theorem shares_add_dropped (hbuy : order.side = .buy) (hfills : ∀ e ∈ fills, Fills order e) :
    (fills.map (share .buy)).sum * 10 ^ 8 + (fills.map fun e => e.price * e.quantity % 10 ^ 8 +
      (order.price - e.price) * e.quantity % 10 ^ 8).sum = order.price * filledQuantity fills := by
  induction fills with
  | nil => simp [filledQuantity]
  | cons e fills ih =>
    have ih := ih fun x hx => hfills x (List.mem_cons_of_mem _ hx)
    obtain ⟨-, -, hlimit, hle⟩ := (hfills e List.mem_cons_self).buy hbuy
    have hsum : e.price * e.quantity + (order.price - e.price) * e.quantity +
        order.price * filledQuantity fills = order.price * (e.quantity + filledQuantity fills) := by
      ring
    rw [List.map_cons, List.map_cons, List.sum_cons, List.sum_cons, filledQuantity_cons]
    simp only [share, hlimit, max_eq_right (sub_nonneg.mpr hle)]
    omega

/-- Nothing of the reservation stays locked exactly when the order sells, or the digits
dropped on the way are less than one unit together. -/
theorem removedFromLocked_eq_locked_iff (request : ValidRequest) (newId : Uuid) (order : Order)
    (fills : List TradeExecutedEvent) (hprice : AtMostEightDecimals request.val.price)
    (hamount : AtMostEightDecimals request.val.amount)
    (hcreated : newOrder request.val newId = some order) (hfills : ∀ e ∈ fills, Fills order e)
    (htotal : filledQuantity fills ≤ order.amount) :
    removedFromLocked order fills = (lockAmount request.val).toNumeric ↔
      order.side = .sell ∨ droppedDigits order fills < 10 ^ 8 := by
  obtain ⟨hp, hpos, ha, hapos⟩ := newOrder_values hprice hamount hcreated
  have hrest : 0 ≤ order.amount - filledQuantity fills := sub_nonneg.mpr htotal
  have hlocked := lockAmount_toNumeric hpos.le hapos.le hp ha
  have hunlocked : (unlockAmount (cancelledAfter order fills)).toNumeric =
      some (reserve order.side order.price (order.amount - filledQuantity fills)) :=
    unlockAmount_toNumeric hpos.le hrest
  rw [← newOrder_side hcreated] at hlocked
  have hremoved : removedFromLocked order fills = some ((fills.map (share order.side)).sum +
      reserve order.side order.price (order.amount - filledQuantity fills)) := by
    rw [removedFromLocked, takenBySettlements_eq hfills, hunlocked]
    by_cases hfilled : filledQuantity fills = order.amount
    · simp [hfilled, reserve_zero]
    · simp [hfilled]
  rw [hremoved, hlocked, Option.some.injEq]
  cases hside : order.side with
  | sell =>
    rw [shares_sell]
    simp [reserve]
  | buy =>
    have hdropped := shares_add_dropped hside hfills
    have hsplit : order.price * order.amount = order.price * filledQuantity fills +
        order.price * (order.amount - filledQuantity fills) := by ring
    have hnonneg : 0 ≤ (fills.map fun e => e.price * e.quantity % 10 ^ 8 +
        (order.price - e.price) * e.quantity % 10 ^ 8).sum := by
      refine List.sum_nonneg fun n hn => ?_
      obtain ⟨e, -, rfl⟩ := List.mem_map.mp hn
      omega
    simp only [reserve_buy, droppedDigits, reduceCtorEq, false_or]
    omega

theorem removedFromLocked_eq_locked_iff_small :
    removedFromLocked smallOrder [smallTrade 3000000000000 3] =
        (lockAmount smallRequest).toNumeric ↔
      smallOrder.side = .sell ∨ droppedDigits smallOrder [smallTrade 3000000000000 3] < 10 ^ 8 :=
  removedFromLocked_eq_locked_iff ⟨smallRequest, by decide +kernel⟩ "order" smallOrder _ ⟨_, rfl⟩
    ⟨_, rfl⟩ (by decide +kernel)
    (by
      intro e he
      obtain rfl := List.mem_singleton.mp he
      exact fills_smallTrade (by decide) (by decide) (by decide))
    (by decide)

/-- Bought at its limit by one trade, the order leaves a unit of the `0.00090002` that were
locked for it. -/
theorem locked_residue : newOrder smallRequest "order" = some smallOrder ∧
    Fills smallOrder (smallTrade 3000050000000 3) ∧
    filledQuantity [smallTrade 3000050000000 3] = smallOrder.amount ∧
    (lockAmount smallRequest).toNumeric = some 90002 ∧
    removedFromLocked smallOrder [smallTrade 3000050000000 3] = some 90001 := by
  refine ⟨by decide +kernel, fills_smallTrade (by decide) (by decide) (by decide), by decide, ?_, ?_⟩
  · decide +kernel
  · decide +kernel

end EtherTrade.OrderReservationLaws
