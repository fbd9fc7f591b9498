import EtherTrade.DepositsSchema
import EtherTrade.WithdrawalsSchema

/-!
# The unit converter

Amounts of a token on the chain are integers, those of the platform have eight decimals. In the
transfers service `BigNumber` divides to eight decimals, rounded toward zero. Texts with exponents
do not occur: `toFixed` writes digits, and so does `toString` of an integer.
-/

namespace EtherTrade.UnitConverter

open DecimalNumbers AccountsSchema

variable {n d a : ℕ}

/-- Eight decimals, rounded toward zero. -/
def truncate (q : ℚ) : ℚ := if q < 0 then -(roundDown |q| / scale) else roundDown q / scale

/-- `dividedBy` as the converter configures it. -/
def dividedBy : BigNumber → BigNumber → BigNumber
  | .nan, _ => .nan
  | _, .nan => .nan
  | .finite a, .finite b =>
    if b = 0 then if a = 0 then .nan else .infinite (decide (a < 0))
    else .finite (truncate (a / b))
  | .finite _, .infinite _ => .finite 0
  | .infinite s, .finite b => .infinite (s ^^ decide (b < 0))
  | .infinite _, .infinite _ => .nan

/-- `new BigNumber(10).pow(tokenDecimals)` -/
def powerOfTen (tokenDecimals : ℕ) : BigNumber := .finite (10 ^ tokenDecimals)

def scaleEvmAmountToPlatform (evmAmount tokenDecimals : ℕ) : NumericText :=
  let scaled := dividedBy (.finite evmAmount) (powerOfTen tokenDecimals)
  scaled.toFixed

/-- `BigInt(n.toFixed(0, ROUND_DOWN))`, which throws for a word. -/
def toBigInt : BigNumber → Option ℤ
  | .finite q => some (if q < 0 then -⌊|q|⌋ else ⌊q⌋)
  | _ => none

def scalePlatformAmountToEvm (platformAmount : NumericText) (tokenDecimals : ℕ) : Option ℤ :=
  toBigInt (platformAmount.toBigNumber.multipliedBy (powerOfTen tokenDecimals))

/-! ### Integers -/

theorem roundDown_div (n d : ℕ) : roundDown ((n : ℚ) / 10 ^ d) = (n * 10 ^ 8 / 10 ^ d : ℕ) := by
  have hsame : ((n : ℚ) / 10 ^ d * scale) = ((n * 10 ^ 8 : ℕ) : ℚ) / ((10 ^ d : ℕ) : ℚ) := by
    rw [scale]
    push_cast
    ring
  rw [roundDown, hsame, Rat.floor_natCast_div_natCast]
  rfl

/-- The digits behind the eighth are dropped once; what is left has no more to drop. -/
theorem scaleEvmAmountToPlatform_eq (n d : ℕ) : scaleEvmAmountToPlatform n d =
    .digits 0 (DepositsSchema.scaleEvmAmountToPlatform n d) := by
  have hquotient : (0 : ℚ) ≤ (n : ℚ) / 10 ^ d := by positivity
  have hunits' : roundDown ((n * 10 ^ 8 / 10 ^ d : ℕ) / scale) = (n * 10 ^ 8 / 10 ^ d : ℕ) :=
    roundDown_units _
  have hnonneg : (0 : ℚ) ≤ ((n * 10 ^ 8 / 10 ^ d : ℕ) / scale) :=
    div_nonneg (Nat.cast_nonneg _) scale_pos.le
  simp only [scaleEvmAmountToPlatform, powerOfTen, dividedBy, truncate,
    if_neg (pow_ne_zero d (by norm_num : (10 : ℚ) ≠ 0)), not_lt.mpr hquotient, if_false,
    roundDown_div]
  rw [Int.cast_natCast, toFixed_of_nonneg hnonneg, hunits', Int.toNat_natCast]
  rfl

theorem scalePlatformAmountToEvm_digits (a d : ℕ) :
    scalePlatformAmountToEvm (.digits 0 a) d = some ((a * 10 ^ d / 10 ^ 8 : ℕ) : ℤ) := by
  have hproduct : ((a : ℚ) / scale * 10 ^ d) = ((a * 10 ^ d : ℕ) : ℚ) / ((10 ^ 8 : ℕ) : ℚ) := by
    rw [scale]
    push_cast
    ring
  have hnonneg : (0 : ℚ) ≤ ((a * 10 ^ d : ℕ) : ℚ) / ((10 ^ 8 : ℕ) : ℚ) := by positivity
  simp only [scalePlatformAmountToEvm, NumericText.toBigNumber, powerOfTen,
    BigNumber.multipliedBy, toBigInt, hproduct, not_lt.mpr hnonneg, if_false,
    Rat.floor_natCast_div_natCast]
  rfl

/-- The conversion of a withdrawal's amount. -/
theorem scalePlatformAmountToEvm_amount (amount : Amount) (d : ℕ) :
    scalePlatformAmountToEvm (.digits 0 amount.units.toNat) d =
      some (WithdrawalsSchema.scalePlatformAmountToEvm amount d) := by
  rw [scalePlatformAmountToEvm_digits, WithdrawalsSchema.scalePlatformAmountToEvm]
  push_cast
  rw [Int.toNat_of_nonneg amount.positive.le]

/-! ### Round trips -/

/-- From the chain and back: the digits behind the eighth are lost, if the token has more. -/
theorem fromChain_back (n d : ℕ) : n * 10 ^ 8 / 10 ^ d * 10 ^ d / 10 ^ 8 = n - n % 10 ^ (d - 8) := by
  rcases le_total 8 d with h | h
  · obtain ⟨k, rfl⟩ := Nat.exists_eq_add_of_le h
    have hpow : 10 ^ (8 + k) = 10 ^ k * 10 ^ 8 := by rw [pow_add, Nat.mul_comm]
    rw [hpow, Nat.mul_div_mul_right _ _ (by norm_num), ← Nat.mul_assoc,
      Nat.mul_div_cancel _ (by norm_num), Nat.add_sub_cancel_left]
    have := Nat.div_add_mod' n (10 ^ k)
    omega
  · obtain ⟨k, hk⟩ := Nat.exists_eq_add_of_le h
    rw [hk, pow_add, Nat.mul_comm (10 ^ d), ← Nat.mul_assoc,
      Nat.mul_div_cancel _ (by positivity), Nat.mul_assoc, Nat.mul_div_cancel _ (by positivity),
      Nat.sub_add_eq, Nat.sub_self, Nat.zero_sub, pow_zero, Nat.mod_one, Nat.sub_zero]

/-- From the platform and back: the digits that the token does not have are lost. -/
theorem fromPlatform_back (a d : ℕ) :
    a * 10 ^ d / 10 ^ 8 * 10 ^ 8 / 10 ^ d = a - a % 10 ^ (8 - d) := by
  rcases le_total 8 d with h | h
  · obtain ⟨k, rfl⟩ := Nat.exists_eq_add_of_le h
    have hpow : 10 ^ (8 + k) = 10 ^ k * 10 ^ 8 := by rw [pow_add, Nat.mul_comm]
    rw [hpow, ← Nat.mul_assoc, Nat.mul_div_cancel _ (by norm_num), Nat.mul_assoc,
      Nat.mul_div_cancel _ (by positivity), Nat.sub_add_eq, Nat.sub_self, Nat.zero_sub, pow_zero,
      Nat.mod_one, Nat.sub_zero]
  · obtain ⟨k, hk⟩ := Nat.exists_eq_add_of_le h
    rw [hk, pow_add, Nat.mul_comm (10 ^ d), Nat.mul_div_mul_right _ _ (by positivity),
      ← Nat.mul_assoc, Nat.mul_div_cancel _ (by positivity), Nat.add_sub_cancel_left]
    have := Nat.div_add_mod' a (10 ^ k)
    omega

/-- What an integer of a token is on the platform, and what there and back makes of it and of an
amount of the platform: each loses the digits that the other does not have, and gains nothing. -/
structure UnitsConverted (d : ℕ) : Prop where
  down : ∀ n : ℕ, (scaleEvmAmountToPlatform n d).toBigNumber =
    .finite (roundDown (n / 10 ^ d) / scale)
  chain_many : 8 ≤ d → ∀ n : ℕ,
    scalePlatformAmountToEvm (scaleEvmAmountToPlatform n d) d = some ((n - n % 10 ^ (d - 8) : ℕ) : ℤ)
  chain_few : d ≤ 8 → ∀ n : ℕ,
    scalePlatformAmountToEvm (scaleEvmAmountToPlatform n d) d = some (n : ℤ)
  platform_many : 8 ≤ d → ∀ a : ℕ, ∃ n : ℕ, scalePlatformAmountToEvm (.digits 0 a) d = some (n : ℤ) ∧
    scaleEvmAmountToPlatform n d = .digits 0 a
  platform_few : d < 8 → ∀ a : ℕ, ∃ n : ℕ, scalePlatformAmountToEvm (.digits 0 a) d = some (n : ℤ) ∧
    scaleEvmAmountToPlatform n d = .digits 0 (a - a % 10 ^ (8 - d))
  chain_gain : ∀ n : ℕ, ∃ back ≤ n,
    scalePlatformAmountToEvm (scaleEvmAmountToPlatform n d) d = some (back : ℤ)
  platform_gain : ∀ a : ℕ, ∃ n : ℕ, ∃ back ≤ a,
    scalePlatformAmountToEvm (.digits 0 a) d = some (n : ℤ) ∧
      scaleEvmAmountToPlatform n d = .digits 0 back

theorem chain_back (n d : ℕ) : scalePlatformAmountToEvm (scaleEvmAmountToPlatform n d) d =
    some ((n - n % 10 ^ (d - 8) : ℕ) : ℤ) := by
  rw [scaleEvmAmountToPlatform_eq, scalePlatformAmountToEvm_digits,
    DepositsSchema.scaleEvmAmountToPlatform, DepositsSchema.platformDecimals, fromChain_back]

theorem platform_back (a d : ℕ) : scaleEvmAmountToPlatform (a * 10 ^ d / 10 ^ 8) d =
    .digits 0 (a - a % 10 ^ (8 - d)) := by
  rw [scaleEvmAmountToPlatform_eq, DepositsSchema.scaleEvmAmountToPlatform,
    DepositsSchema.platformDecimals, fromPlatform_back]

/-- For all integers and amounts, and for tokens with any number of decimals. -/
theorem unitsConverted (d : ℕ) : UnitsConverted d where
  down n := by
    rw [scaleEvmAmountToPlatform_eq, roundDown_div, Int.cast_natCast]
    rfl
  chain_many _ n := chain_back n d
  chain_few h n := by
    rw [chain_back, Nat.sub_eq_zero_of_le h, pow_zero, Nat.mod_one, Nat.sub_zero]
  platform_many h a := by
    refine ⟨_, scalePlatformAmountToEvm_digits a d, ?_⟩
    rw [platform_back, Nat.sub_eq_zero_of_le h, pow_zero, Nat.mod_one, Nat.sub_zero]
  platform_few _ a := ⟨_, scalePlatformAmountToEvm_digits a d, platform_back a d⟩
  chain_gain n := ⟨_, Nat.sub_le _ _, chain_back n d⟩
  platform_gain a :=
    ⟨_, _, Nat.sub_le _ _, scalePlatformAmountToEvm_digits a d, platform_back a d⟩

end EtherTrade.UnitConverter
