import Mathlib.Tactic.Positivity
import EtherTrade.DecimalNumbers

/-!
# Quotients, comparisons and directed rounding

Division rounds to twenty decimals, ties away from zero; products and sums stay exact. A
number is rendered with eight decimals in one of three rounding modes.
-/

namespace EtherTrade.DecimalNumbers

/-- Twenty decimals, ties away from zero. -/
def roundQuotient (q : ℚ) : ℚ :=
  let units : ℤ := ⌊|q| * 10 ^ 20 + 1 / 2⌋
  if q < 0 then -(units / 10 ^ 20) else units / 10 ^ 20

theorem roundQuotient_of_nonneg {q : ℚ} (h : 0 ≤ q) :
    roundQuotient q = ⌊q * 10 ^ 20 + 1 / 2⌋ / 10 ^ 20 := by
  simp [roundQuotient, not_lt.mpr h, abs_of_nonneg h]

theorem roundQuotient_mono {q r : ℚ} (hq : 0 ≤ q) (h : q ≤ r) :
    roundQuotient q ≤ roundQuotient r := by
  rw [roundQuotient_of_nonneg hq, roundQuotient_of_nonneg (hq.trans h)]
  gcongr

theorem roundQuotient_nonneg {q : ℚ} (h : 0 ≤ q) : 0 ≤ roundQuotient q := by
  rw [roundQuotient_of_nonneg h]
  have hfloor : 0 ≤ ⌊q * 10 ^ 20 + 1 / 2⌋ := Int.floor_nonneg.mpr (by positivity)
  positivity

/-- A number with twenty decimals stays as it is. -/
theorem roundQuotient_parts (n : ℕ) : roundQuotient (n / 10 ^ 20) = n / 10 ^ 20 := by
  have hfloor : ⌊((n : ℚ) / 10 ^ 20 * 10 ^ 20 + 1 / 2)⌋ = n := by
    rw [div_mul_cancel₀ _ (by norm_num), Int.floor_natCast_add]
    norm_num
  rw [roundQuotient_of_nonneg (by positivity), hfloor, Int.cast_natCast]

/-- At most half a part is added. -/
theorem roundQuotient_le {q : ℚ} (h : 0 ≤ q) : roundQuotient q ≤ q + 1 / (2 * 10 ^ 20) := by
  have hfloor := Int.floor_le (q * 10 ^ 20 + 1 / 2)
  rw [roundQuotient_of_nonneg h, div_le_iff₀ (by norm_num)]
  linarith

/-- A ratio is right up to half a part. -/
theorem abs_roundQuotient_sub_le {x : ℚ} (hx : 0 ≤ x) :
    |roundQuotient x - x| ≤ 1 / (2 * 10 ^ 20) := by
  have hfloor := Int.floor_le (x * 10 ^ 20 + 1 / 2)
  have hlt := Int.lt_floor_add_one (x * 10 ^ 20 + 1 / 2)
  rw [roundQuotient_of_nonneg hx, abs_sub_le_iff]
  constructor
  · rw [sub_le_iff_le_add, div_le_iff₀ (by norm_num)]
    linarith
  · rw [sub_le_iff_le_add, ← sub_le_iff_le_add', le_div_iff₀ (by norm_num)]
    linarith

/-- The units of `10⁻⁸` that are left of a magnitude. -/
inductive RoundingMode where
  | up
  | down
  | halfUp
  deriving DecidableEq, Repr

def RoundingMode.round : RoundingMode → ℚ → ℤ
  | .up, q => ⌈q * scale⌉
  | .down, q => roundDown q
  | .halfUp, q => roundHalfUp q

namespace BigNumber

def dividedBy : BigNumber → BigNumber → BigNumber
  | .nan, _ => .nan
  | _, .nan => .nan
  | .finite a, .finite b =>
    if b = 0 then if a = 0 then .nan else .infinite (decide (a < 0))
    else .finite (roundQuotient (a / b))
  | .finite _, .infinite _ => .finite 0
  | .infinite s, .finite b => .infinite (s ^^ decide (b < 0))
  | .infinite _, .infinite _ => .nan

def isLessThan (a b : BigNumber) : Bool := b.isGreaterThan a

def isLessThanOrEqualTo : BigNumber → BigNumber → Bool
  | .nan, _ => false
  | _, .nan => false
  | a, b => !a.isGreaterThan b

/-- The smaller number, if both are numbers. -/
def min : BigNumber → BigNumber → BigNumber
  | .nan, _ => .nan
  | _, .nan => .nan
  | a, b => if a.isGreaterThan b then b else a

def max : BigNumber → BigNumber → BigNumber
  | .nan, _ => .nan
  | _, .nan => .nan
  | a, b => if b.isGreaterThan a then b else a

end BigNumber

end EtherTrade.DecimalNumbers
