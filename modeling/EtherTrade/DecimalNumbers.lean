import Mathlib.Algebra.Order.Floor.Ring
import Mathlib.Data.Int.Log
import Mathlib.Data.Rat.Floor

/-!
# Decimal numbers, their fixed-point text and numeric columns

`BigNumber` is the value of an arbitrary-precision decimal: not a number, an infinity,
or an exact rational. `toFixed` renders it with eight decimals, rounding toward zero.
The database reads digits behind at most one minus sign, and no word. A zero carries no
sign here.
-/

namespace EtherTrade.DecimalNumbers

/-- A numeric column with scale 8 holds an integer number of units of `10⁻⁸`. -/
def scale : ℚ := 10 ^ 8

theorem scale_pos : 0 < scale := by norm_num [scale]

inductive BigNumber where
  | nan
  | infinite (negative : Bool)
  | finite (value : ℚ)
  deriving DecidableEq, Repr

namespace BigNumber

def multipliedBy : BigNumber → BigNumber → BigNumber
  | .nan, _ => .nan
  | _, .nan => .nan
  | .finite a, .finite b => .finite (a * b)
  | .finite a, .infinite s => if a = 0 then .nan else .infinite (s ^^ decide (a < 0))
  | .infinite s, .finite a => if a = 0 then .nan else .infinite (s ^^ decide (a < 0))
  | .infinite s, .infinite t => .infinite (s ^^ t)

def negated : BigNumber → BigNumber
  | .nan => .nan
  | .infinite s => .infinite !s
  | .finite a => .finite (-a)

def plus : BigNumber → BigNumber → BigNumber
  | .nan, _ => .nan
  | _, .nan => .nan
  | .finite a, .finite b => .finite (a + b)
  | .finite _, .infinite s => .infinite s
  | .infinite s, .finite _ => .infinite s
  | .infinite s, .infinite t => if s = t then .infinite s else .nan

def minus (a b : BigNumber) : BigNumber := a.plus b.negated

/-- Comparisons with a value that is not a number are false. -/
def isGreaterThan : BigNumber → BigNumber → Bool
  | .nan, _ => false
  | _, .nan => false
  | .finite a, .finite b => decide (b < a)
  | .finite _, .infinite t => t
  | .infinite s, .finite _ => !s
  | .infinite s, .infinite t => !s && t

end BigNumber

/-- Text of a number: minus signs and then a count of units of `10⁻⁸` in digits, or a
word such as `NaN` or `Infinity`. -/
inductive NumericText where
  | digits (minuses units : ℕ)
  | word
  deriving DecidableEq, Repr

/-- The units left of a magnitude when the digits after the eighth are dropped. -/
def roundDown (q : ℚ) : ℤ := ⌊q * scale⌋

/-- The units nearest to a magnitude, the larger ones of a tie. -/
def roundHalfUp (q : ℚ) : ℤ := ⌊q * scale + 1 / 2⌋

/-- Eight decimals, rounded toward zero. A value below zero keeps its minus sign also
when all its digits are dropped. -/
def BigNumber.toFixed : BigNumber → NumericText
  | .finite q => .digits (if q < 0 then 1 else 0) (roundDown |q|).toNat
  | _ => .word

/-- Eight decimals, ties rounded away from zero. -/
def BigNumber.toFixedHalfUp : BigNumber → NumericText
  | .finite q => .digits (if q < 0 then 1 else 0) (roundHalfUp |q|).toNat
  | _ => .word

/-- What a `numeric(28, 8)` column stores for the text of a number. Values with more than
twenty digits before the point are refused, and so are infinities. -/
def BigNumber.toColumn : BigNumber → Option ℤ
  | .finite q =>
    let units := roundHalfUp |q|
    if units < 10 ^ 28 then some (if q < 0 then -units else units) else none
  | _ => none

namespace NumericText

def zero : NumericText := .digits 0 0

/-- The template text `-${t}`. -/
def withMinus : NumericText → NumericText
  | .digits m u => .digits (m + 1) u
  | .word => .word

/-- The characters of the text. -/
def chars : NumericText → String
  | .digits minuses units =>
    let places := toString (units % 10 ^ 8)
    String.ofList (List.replicate minuses '-') ++ toString (units / 10 ^ 8) ++ "." ++
      String.ofList (List.replicate (8 - places.length) '0') ++ places
  | .word => "NaN"

/-- The value a numeric column takes from the text. Two minus signs are no number, and
neither infinities nor `-NaN` can be stored. -/
def toNumeric : NumericText → Option ℤ
  | .digits 0 u => some u
  | .digits 1 u => some (-u)
  | _ => none

/-- `new BigNumber(text)` for a text that `toFixed` produced. -/
def toBigNumber : NumericText → BigNumber
  | .digits 0 u => .finite (u / scale)
  | .digits 1 u => .finite (-(u / scale))
  | _ => .nan

end NumericText

/-- The text of a `numeric(28, 8)` column that holds a number of units. -/
def columnText (units : ℤ) : String :=
  (NumericText.digits (if units < 0 then 1 else 0) units.natAbs).chars

/-! ### Binary floating point -/

def roundHalfEven (q : ℚ) : ℤ :=
  let rest := q - ⌊q⌋
  if rest < 1 / 2 then ⌊q⌋ else if 1 / 2 < rest then ⌊q⌋ + 1 else ⌊q⌋ + ⌊q⌋ % 2

/-- The `e` with `2 ^ e ≤ q < 2 ^ (e + 1)`, for `0 < q`. -/
def binaryExponent (q : ℚ) : ℤ :=
  let e : ℤ := q.num.toNat.log2 - q.den.log2
  if 2 ^ e ≤ q then e else e - 1

/-- `toNumber` of a value that is not negative: the nearest number with 53 binary digits. -/
def toNumber (q : ℚ) : ℚ :=
  if q = 0 then 0 else
    let ulp : ℚ := 2 ^ (binaryExponent q - 52)
    roundHalfEven (q / ulp) * ulp

/-- The decimals with `digits` significant digits next to `x`, the nearest first. -/
def nearestDecimals (x : ℚ) (digits : ℕ) : List ℚ :=
  let ulp : ℚ := 10 ^ (Int.log 10 x - digits + 1)
  let below := ⌊x / ulp⌋ * ulp
  if x - below ≤ below + ulp - x then [below, below + ulp] else [below + ulp, below]

/-- `new BigNumber(x)` for a number `x`: the shortest decimal that reads as `x`. -/
def ofNumber (x : ℚ) : ℚ :=
  (((List.range 17).flatMap fun n => nearestDecimals x (n + 1)).find? fun y =>
    toNumber y = x).getD x

theorem roundDown_nonneg {q : ℚ} (h : 0 ≤ q) : 0 ≤ roundDown q :=
  Int.floor_nonneg.mpr (mul_nonneg h scale_pos.le)

theorem roundDown_units (u : ℤ) : roundDown (u / scale) = u := by
  rw [roundDown, div_mul_cancel₀ _ scale_pos.ne', Int.floor_intCast]

/-- The product of two numbers of units, in units. -/
theorem units_mul_units (a b : ℤ) :
    (a / scale * (b / scale) : ℚ) * scale = ((a * b : ℤ) : ℚ) / ((10 ^ 8 : ℕ) : ℚ) := by
  have hscale : ((10 ^ 8 : ℕ) : ℚ) = scale := by norm_num [scale]
  rw [hscale, Int.cast_mul]
  field_simp [scale_pos.ne']

/-- Rounded down, a product of units loses the digits behind the last place. -/
theorem roundDown_units_mul (a b : ℤ) : roundDown (a / scale * (b / scale)) = a * b / 10 ^ 8 := by
  rw [roundDown, units_mul_units, Rat.floor_intCast_div_natCast]
  rfl

theorem roundHalfUp_units_mul (a b : ℤ) :
    roundHalfUp (a / scale * (b / scale)) = (a * b + 5 * 10 ^ 7) / 10 ^ 8 := by
  have hhalf : (1 / 2 : ℚ) = ((5 * 10 ^ 7 : ℤ) : ℚ) / ((10 ^ 8 : ℕ) : ℚ) := by norm_num
  rw [roundHalfUp, units_mul_units, hhalf, ← add_div, ← Int.cast_add,
    Rat.floor_intCast_div_natCast]
  rfl

theorem roundHalfUp_units (u : ℤ) : roundHalfUp (u / scale) = u := by
  rw [roundHalfUp, div_mul_cancel₀ _ scale_pos.ne', Int.floor_intCast_add]
  norm_num

theorem roundHalfUp_nonneg {q : ℚ} (h : 0 ≤ q) : 0 ≤ roundHalfUp q :=
  Int.floor_nonneg.mpr (add_nonneg (mul_nonneg h scale_pos.le) (by norm_num))

theorem toNumeric_toFixedHalfUp {q : ℚ} (h : 0 ≤ q) :
    (BigNumber.finite q).toFixedHalfUp.toNumeric = some (roundHalfUp q) := by
  simp [BigNumber.toFixedHalfUp, not_lt.mpr h, abs_of_nonneg h, NumericText.toNumeric,
    Int.toNat_of_nonneg (roundHalfUp_nonneg h)]

/-- A column keeps a number of units as it is. -/
theorem toColumn_units {u v : ℤ} (hu : 0 ≤ u) (h : (BigNumber.finite (u / scale)).toColumn = some v) :
    v = u := by
  have hq : (0 : ℚ) ≤ u / scale := div_nonneg (Int.cast_nonneg hu) scale_pos.le
  simp only [BigNumber.toColumn, abs_of_nonneg hq, roundHalfUp_units, not_lt.mpr hq, if_false] at h
  split at h
  · exact (Option.some.inj h).symm
  · cases h

theorem toFixed_of_nonneg {q : ℚ} (h : 0 ≤ q) :
    (BigNumber.finite q).toFixed = .digits 0 (roundDown q).toNat := by
  simp [BigNumber.toFixed, not_lt.mpr h, abs_of_nonneg h]

/-- A value that is not negative is stored rounded down. -/
theorem toNumeric_toFixed {q : ℚ} (h : 0 ≤ q) :
    (BigNumber.finite q).toFixed.toNumeric = some (roundDown q) := by
  rw [toFixed_of_nonneg h, NumericText.toNumeric, Int.toNat_of_nonneg (roundDown_nonneg h)]

theorem toNumeric_withMinus_toFixed {q : ℚ} (h : 0 ≤ q) :
    (BigNumber.finite q).toFixed.withMinus.toNumeric = some (-roundDown q) := by
  rw [toFixed_of_nonneg h, NumericText.withMinus, NumericText.toNumeric,
    Int.toNat_of_nonneg (roundDown_nonneg h)]

theorem toBigNumber_of_toNumeric {t : NumericText} {n : ℤ} (h : t.toNumeric = some n) :
    t.toBigNumber = .finite (n / scale) := by
  cases t with
  | word => cases h
  | digits m u =>
    match m with
    | 0 =>
      obtain rfl := Option.some.inj h
      simp [NumericText.toBigNumber]
    | 1 =>
      obtain rfl := Option.some.inj h
      simp [NumericText.toBigNumber, neg_div]
    | m + 2 => cases h

/-- The sum of two texts, written behind a minus sign, is a number exactly when the sum is
not negative. -/
theorem toNumeric_withMinus_plus {s t : NumericText} {m n : ℤ} (hs : s.toNumeric = some m)
    (ht : t.toNumeric = some n) :
    (s.toBigNumber.plus t.toBigNumber).toFixed.withMinus.toNumeric =
      if 0 ≤ m + n then some (-(m + n)) else none := by
  have hsum : s.toBigNumber.plus t.toBigNumber = .finite (((m + n : ℤ) : ℚ) / scale) := by
    rw [toBigNumber_of_toNumeric hs, toBigNumber_of_toNumeric ht, Int.cast_add, add_div]
    rfl
  rw [hsum]
  split
  · next h =>
    have hq : (0 : ℚ) ≤ ((m + n : ℤ) : ℚ) / scale :=
      div_nonneg (Int.cast_nonneg h) scale_pos.le
    rw [toNumeric_withMinus_toFixed hq, roundDown_units]
  · next h =>
    have hq : ((m + n : ℤ) : ℚ) / scale < 0 :=
      div_neg_of_neg_of_pos (Int.cast_lt_zero.mpr (not_le.mp h)) scale_pos
    simp only [BigNumber.toFixed, hq, if_true, NumericText.withMinus, NumericText.toNumeric]

/-- A text that is a number also behind one more minus sign is not below zero. -/
theorem toNumeric_of_withMinus {t : NumericText} {n : ℤ}
    (h : t.withMinus.toNumeric = some n) : t.toNumeric = some (-n) ∧ n ≤ 0 := by
  cases t with
  | word => cases h
  | digits m u =>
    cases m with
    | zero =>
      obtain rfl := Option.some.inj h
      simp [NumericText.toNumeric]
    | succ m => cases h

end EtherTrade.DecimalNumbers
