import EtherTrade.CopyTradingSchema
import EtherTrade.CopyRatioCalculator
import Mathlib.Algebra.Order.BigOperators.Group.List

/-!
# Copied positions

What the completed rows of a subscription add up to, in units, and how much of it a sale can
be: not more than the purchases exceed the sales by.
-/

namespace EtherTrade.CopiedPositions

open DecimalNumbers AccountsSchema CopyTradingSchema CopyRatioCalculator
open OrdersSchema hiding TradeExecutedEvent
open TradeSettlement (TradingSymbol)

variable {db : CopyTradingDb} {rows : List CopyOrderHistory} {subscriptionId : Uuid}
  {pair : TradingSymbol} {side : OrderSide} {q r : ℚ}

/-! ### Sums of rows -/

def units : Numeric → ℤ
  | .nan => 0
  | .units n => n

/-- The completed rows of one side. -/
def completedRows (db : CopyTradingDb) (subscriptionId : Uuid) (pair : TradingSymbol)
    (side : OrderSide) : List CopyOrderHistory :=
  db.copyOrdersHistory.filter fun row => row.subscriptionId = subscriptionId ∧
    row.pair = pair ∧ row.status = .completed ∧ row.masterSide = side

/-- The units of the completed rows of one side. -/
def completedUnits (db : CopyTradingDb) (subscriptionId : Uuid) (pair : TradingSymbol)
    (side : OrderSide) : ℤ :=
  ((completedRows db subscriptionId pair side).map fun row => units row.replicatedQuantity).sum

/-- Completed rows hold numbers of units that are not negative. -/
def Counted (db : CopyTradingDb) : Prop :=
  ∀ row ∈ db.copyOrdersHistory, row.status = .completed →
    ∃ n, row.replicatedQuantity = .units n ∧ 0 ≤ n

theorem foldl_plus_units (h : ∀ row ∈ rows, ∃ n, row.replicatedQuantity = .units n) (start : ℤ) :
    (rows.map fun row => row.replicatedQuantity.toBigNumber).foldl BigNumber.plus
        (.finite (start / scale)) =
      .finite (((start + (rows.map fun row => units row.replicatedQuantity).sum : ℤ) : ℚ) /
        scale) := by
  induction rows generalizing start with
  | nil => simp
  | cons row rows ih =>
    obtain ⟨n, hn⟩ := h row List.mem_cons_self
    have hplus : (BigNumber.finite (start / scale)).plus row.replicatedQuantity.toBigNumber =
        .finite (((start + n : ℤ) : ℚ) / scale) := by
      rw [hn, Numeric.toBigNumber, BigNumber.plus, Int.cast_add, add_div]
    rw [List.map_cons, List.foldl_cons, hplus,
      ih (fun row hrow => h row (List.mem_cons_of_mem _ hrow)), List.map_cons, List.sum_cons, hn,
      units, add_assoc]

theorem mem_completedRows {row : CopyOrderHistory} :
    row ∈ completedRows db subscriptionId pair side ↔ row ∈ db.copyOrdersHistory ∧
      row.subscriptionId = subscriptionId ∧ row.pair = pair ∧ row.status = .completed ∧
        row.masterSide = side := by
  simp [completedRows]

/-- The sum that the query computes is that of the units. -/
theorem totalQuantity_eq (h : Counted db) (subscriptionId : Uuid) (pair : TradingSymbol)
    (side : OrderSide) : db.totalQuantity subscriptionId pair side =
      .finite ((completedUnits db subscriptionId pair side : ℚ) / scale) := by
  have hrows : ∀ row ∈ completedRows db subscriptionId pair side,
      ∃ n, row.replicatedQuantity = .units n := by
    intro row hrow
    obtain ⟨hmem, -, -, hcompleted, -⟩ := mem_completedRows.mp hrow
    obtain ⟨n, hn, -⟩ := h row hmem hcompleted
    exact ⟨n, hn⟩
  have hsum := foldl_plus_units hrows 0
  rw [Int.cast_zero, zero_div, zero_add] at hsum
  exact hsum

/-- A row counts on its own side, if it is completed. -/
theorem completedUnits_append (db : CopyTradingDb) (row : CopyOrderHistory) (subscriptionId : Uuid)
    (pair : TradingSymbol) (side : OrderSide) :
    completedUnits { db with copyOrdersHistory := db.copyOrdersHistory ++ [row] } subscriptionId
        pair side =
      completedUnits db subscriptionId pair side +
        if row.subscriptionId = subscriptionId ∧ row.pair = pair ∧ row.status = .completed ∧
          row.masterSide = side then units row.replicatedQuantity else 0 := by
  simp only [completedUnits, completedRows, List.filter_append, List.map_append, List.sum_append]
  by_cases h : row.subscriptionId = subscriptionId ∧ row.pair = pair ∧ row.status = .completed ∧
      row.masterSide = side
  · simp [h]
  · simp [h]

/-! ### Sizes of sales -/

theorem round_nonneg (mode : RoundingMode) (h : 0 ≤ q) : 0 ≤ mode.round q := by
  cases mode with
  | up => exact Int.ceil_nonneg (mul_nonneg h scale_pos.le)
  | down => exact roundDown_nonneg h
  | halfUp => exact roundHalfUp_nonneg h

/-- A number that is not negative is read back rounded. -/
theorem toFixed_of_nonneg (mode : RoundingMode) (h : 0 ≤ q) :
    (toFixed mode (.finite q)).value = .finite (mode.round q / scale) := by
  simp only [toFixed, not_lt.mpr h, abs_of_nonneg h, if_false, NumericText.toBigNumber,
    ← Int.cast_natCast (R := ℚ), Int.toNat_of_nonneg (round_nonneg mode h)]

theorem toFixed_down_of_nonneg (h : 0 ≤ q) :
    (toFixed .down (.finite q)).value = .finite (roundDown q / scale) := toFixed_of_nonneg .down h

/-- Rounded down, a number does not get larger, unless it is below zero. -/
theorem toFixed_down_le (h : (toFixed .down (.finite q)).value = .finite r) : r ≤ max q 0 := by
  by_cases hq : 0 ≤ q
  · rw [toFixed_down_of_nonneg hq] at h
    cases h
    have hfloor : (roundDown q : ℚ) ≤ q * scale := Int.floor_le _
    exact le_max_of_le_left ((div_le_iff₀ scale_pos).mpr hfloor)
  · simp only [toFixed, not_le.mp hq, if_true, NumericText.toBigNumber] at h
    cases h
    refine le_max_of_le_right (neg_nonpos.mpr (div_nonneg (Nat.cast_nonneg _) scale_pos.le))

theorem isLessThanOrEqualTo_zero :
    (BigNumber.finite q).isLessThanOrEqualTo zero = decide (q ≤ 0) := by
  simp [BigNumber.isLessThanOrEqualTo, zero, BigNumber.isGreaterThan, ← not_lt]

theorem toFixed_zero : (toFixed .halfUp zero).value = .finite 0 := by decide +kernel

/-- The position is what is left of the purchases, if anything. -/
theorem calculateSubPosition_units (bought sold : ℤ) :
    (calculateSubPosition (.finite (bought / scale)) (.finite (sold / scale))).value =
      .finite (((max (bought - sold) 0 : ℤ) : ℚ) / scale) := by
  have hnet : (BigNumber.finite (bought / scale)).minus (.finite (sold / scale)) =
      .finite (((bought - sold : ℤ) : ℚ) / scale) := by
    rw [BigNumber.minus, BigNumber.negated, BigNumber.plus, Int.cast_sub, sub_div, sub_eq_add_neg]
  have hsign : ((bought - sold : ℤ) : ℚ) / scale ≤ 0 ↔ bought - sold ≤ 0 := by
    rw [div_le_iff₀ scale_pos, zero_mul, Int.cast_nonpos]
  simp only [calculateSubPosition, hnet, isLessThanOrEqualTo_zero, hsign, decide_eq_true_eq]
  split
  · next hle => rw [toFixed_zero, max_eq_right hle, Int.cast_zero, zero_div]
  · next hlt =>
    have hnonneg : (0 : ℚ) ≤ ((bought - sold : ℤ) : ℚ) / scale :=
      div_nonneg (Int.cast_nonneg (not_le.mp hlt).le) scale_pos.le
    rw [toFixed_down_of_nonneg hnonneg, roundDown_units, max_eq_left (not_le.mp hlt).le]

/-- The smaller of two numbers is not larger than the second, if it is finite. -/
theorem min_le {x : BigNumber} (h : x.min (.finite q) = .finite r) : r ≤ q := by
  cases x with
  | nan => cases h
  | finite p =>
    simp only [BigNumber.min, BigNumber.isGreaterThan, decide_eq_true_eq] at h
    split at h <;> cases h
    · exact le_rfl
    · next hle => exact not_lt.mp hle
  | infinite negative =>
    cases negative with
    | true => cases h
    | false =>
      cases h
      exact le_rfl

/-- A sale is not larger than the position. -/
theorem calculateSellQuantity_le {masterSell masterTotal : BigNumber}
    (h : (calculateSellQuantity masterSell masterTotal (.finite q)).value = .finite r)
    (hq : 0 ≤ q) : r ≤ q := by
  unfold calculateSellQuantity at h
  split at h
  · rw [toFixed_zero] at h
    cases h
    exact hq
  · generalize hraw : (BigNumber.finite q).multipliedBy (masterSell.dividedBy masterTotal) = raw at h
    dsimp only at h
    generalize hmin : raw.min (.finite q) = least at h
    cases least with
    | nan => cases h
    | finite p =>
      have hle := min_le hmin
      exact (toFixed_down_le h).trans (max_le hle hq)
    | infinite negative => cases h

/-- A column does not round a number beyond the units that bound it. -/
theorem toColumn_le {n v : ℤ} (hq : 0 ≤ q) (hle : q ≤ n / scale)
    (h : (BigNumber.finite q).toColumn = some v) : v ≤ n := by
  simp only [BigNumber.toColumn, abs_of_nonneg hq, not_lt.mpr hq, if_false] at h
  split at h
  · cases h
    rw [← roundHalfUp_units n]
    refine Int.floor_le_floor (add_le_add_left ?_ _)
    exact mul_le_mul_of_nonneg_right hle scale_pos.le
  · cases h

end EtherTrade.CopiedPositions
