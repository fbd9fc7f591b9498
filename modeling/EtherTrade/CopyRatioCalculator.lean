import EtherTrade.DecimalRatios
import EtherTrade.OrdersSchema

/-!
# Sizes and prices of copied orders

The copy ratio calculator and the risk guard. What they compute is text with eight
decimals, and is read again as a number by whoever uses it. Minimum lots are those the
service starts with; nothing but its tests sets others.
-/

namespace EtherTrade.CopyRatioCalculator

open DecimalNumbers OrdersSchema
open TradeSettlement (TradingSymbol)

/-- `toFixed(8, mode)`, and what `BigNumber` reads from it. -/
def toFixed (mode : RoundingMode) : BigNumber → NumberText
  | .finite q =>
    let text : NumericText := .digits (if q < 0 then 1 else 0) (mode.round |q|).toNat
    ⟨text.chars, text.toBigNumber⟩
  | .infinite negative => ⟨if negative then "-Infinity" else "Infinity", .infinite negative⟩
  | .nan => ⟨"NaN", .nan⟩

def zero : BigNumber := .finite 0

/-- `masterQty * (followerUsdt / masterUsdt)`, rounded down. -/
def calculateBuyQuantity
    (masterOrderQuantity masterAvailableUsdt followerAllocatedUsdt : BigNumber) : NumberText :=
  if masterAvailableUsdt.isLessThanOrEqualTo zero ||
      followerAllocatedUsdt.isLessThanOrEqualTo zero || masterOrderQuantity.isLessThanOrEqualTo zero then
    toFixed .halfUp zero
  else
    toFixed .down
      (masterOrderQuantity.multipliedBy (followerAllocatedUsdt.dividedBy masterAvailableUsdt))

/-- `followerSubPos * (masterSellQty / masterBaseAsset)`, at most the position, rounded
down. -/
def calculateSellQuantity
    (masterSellQuantity masterTotalBaseAsset followerSubPosition : BigNumber) : NumberText :=
  if followerSubPosition.isLessThanOrEqualTo zero ||
      masterTotalBaseAsset.isLessThanOrEqualTo zero || masterSellQuantity.isLessThanOrEqualTo zero then
    toFixed .halfUp zero
  else
    let rawCalculated :=
      followerSubPosition.multipliedBy (masterSellQuantity.dividedBy masterTotalBaseAsset)
    toFixed .down (rawCalculated.min followerSubPosition)

def calculateSubPosition (buyTotal sellTotal : BigNumber) : NumberText :=
  let net := buyTotal.minus sellTotal
  if net.isLessThanOrEqualTo zero then toFixed .halfUp zero else toFixed .down net

/-! ### The risk guard -/

def minLot (pair : TradingSymbol) : BigNumber :=
  if pair = ⟨.eth, .usdt⟩ then .finite (1 / 1000) else .finite (1 / 10000)

/-- The quantity is below the minimum lot. -/
def isDust (pair : TradingSymbol) (quantity : BigNumber) : Bool :=
  quantity.isLessThan (minLot pair) || quantity.isLessThanOrEqualTo zero

/-- A buyer pays up to `maxSlippagePercent` more than the master, a seller takes as much
less. -/
def calculateProtectedPrice (masterPrice maxSlippagePercent : BigNumber) : OrderSide → NumberText
  | .buy =>
    let multiplier := (BigNumber.finite 1).plus (maxSlippagePercent.dividedBy (.finite 100))
    toFixed .up (masterPrice.multipliedBy multiplier)
  | .sell =>
    let multiplier := (BigNumber.finite 1).minus (maxSlippagePercent.dividedBy (.finite 100))
    toFixed .down ((masterPrice.multipliedBy multiplier).max (.finite (1 / 10 ^ 8)))

/-- Two bitcoins at a fifth of the master's funds are copied as four tenths. -/
example : (calculateBuyQuantity (.finite 2) (.finite 1000) (.finite 200)).text = "0.40000000" := by
  decide +kernel

end EtherTrade.CopyRatioCalculator
