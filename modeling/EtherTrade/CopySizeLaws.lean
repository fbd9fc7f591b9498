import Mathlib.Data.Nat.Cast.Order.Field
import Mathlib.Order.Bounds.Basic
import EtherTrade.CopiedPositions
import EtherTrade.RoundedQuotients

/-!
# Sizes of copied orders

What the sizes of copied purchases and sales come to, and what a copied purchase reserves, for
all amounts of eight decimals.
-/

namespace EtherTrade.CopySizeLaws

open DecimalNumbers OrdersSchema CopyRatioCalculator CopiedPositions RoundedQuotients

variable {q m f : ℕ} {x : ℚ}

/-- A number of units. -/
def amount (n : ℤ) : BigNumber := .finite (n / scale)

theorem amount_isLessThanOrEqualTo (a b : ℤ) :
    (amount a).isLessThanOrEqualTo (amount b) = decide (a ≤ b) := by
  have hunits : (b : ℚ) / scale < a / scale ↔ b < a := by
    rw [div_lt_div_iff_of_pos_right scale_pos, Int.cast_lt]
  simp only [amount, BigNumber.isLessThanOrEqualTo, BigNumber.isGreaterThan, hunits]
  simp only [← not_lt, decide_not]

theorem amount_isLessThanOrEqualTo_zero (n : ℤ) :
    (amount n).isLessThanOrEqualTo zero = decide (n ≤ 0) := by
  have hzero : zero = amount 0 := by simp [amount, zero]
  rw [hzero, amount_isLessThanOrEqualTo]

theorem dividedBy_amount (a b : ℤ) (hb : b ≠ 0) :
    (amount a).dividedBy (amount b) = .finite (roundQuotient (a / b)) := by
  have hb' : (b / scale : ℚ) ≠ 0 := div_ne_zero (Int.cast_ne_zero.mpr hb) scale_pos.ne'
  rw [amount, amount, BigNumber.dividedBy, if_neg hb', div_div_div_cancel_right₀ scale_pos.ne']

/-! ### Purchases -/

theorem roundQuotient_div (hm : 0 < m) :
    roundQuotient (f / m) = (nearest (f * 10 ^ 20) m : ℚ) / 10 ^ 20 := by
  have hshift : (f / m * 10 ^ 20 + 1 / 2 : ℚ) = ((f * 10 ^ 20 : ℕ) : ℚ) / m + 1 / 2 := by
    push_cast
    ring
  rw [roundQuotient_of_nonneg (by positivity), hshift, floor_add_half _ _ hm, Int.cast_natCast]

/-- The size of a copied purchase, in units. -/
theorem calculateBuyQuantity_units (hq : 0 < q) (hm : 0 < m) (hf : 0 < f) :
    (calculateBuyQuantity (amount q) (amount m) (amount f)).value =
      amount ((q * nearest (f * 10 ^ 20) m / 10 ^ 20 : ℕ) : ℤ) := by
  have hnone : ¬(((amount m).isLessThanOrEqualTo zero || (amount f).isLessThanOrEqualTo zero ||
      (amount q).isLessThanOrEqualTo zero) = true) := by
    simp only [amount_isLessThanOrEqualTo_zero, Bool.or_eq_true, decide_eq_true_eq]
    omega
  have hproduct : (amount q).multipliedBy ((amount f).dividedBy (amount m)) =
      .finite (q / scale * (nearest (f * 10 ^ 20) m / 10 ^ 20)) := by
    rw [dividedBy_amount _ _ (by omega), Int.cast_natCast, Int.cast_natCast, roundQuotient_div hm]
    rfl
  have hunits : roundDown (q / scale * (nearest (f * 10 ^ 20) m / 10 ^ 20)) =
      ((q * nearest (f * 10 ^ 20) m / 10 ^ 20 : ℕ) : ℤ) := by
    have hsame : (q / scale * (nearest (f * 10 ^ 20) m / 10 ^ 20) * scale : ℚ) =
        ((q * nearest (f * 10 ^ 20) m : ℕ) : ℚ) / ((10 ^ 20 : ℕ) : ℚ) := by
      rw [Nat.cast_mul, Nat.cast_pow, Nat.cast_ofNat]
      field_simp [scale_pos.ne']
    rw [roundDown, hsame, Rat.floor_natCast_div_natCast]
    rfl
  rw [calculateBuyQuantity, if_neg hnone, hproduct, toFixed_down_of_nonneg, hunits, amount]
  have := scale_pos
  positivity

/-- At most eight decimals. -/
def IsDecimal (x : ℚ) : Prop := ∃ n : ℤ, x = n / scale

/-- The size that a purchase of `q` units is copied with is the largest one that the exact ratio
of the allocation to the master's balance allows. -/
def BuysLargest (q m f : ℕ) : Prop :=
  ∃ size, (calculateBuyQuantity (amount q) (amount m) (amount f)).value = .finite size ∧
    IsGreatest {x | IsDecimal x ∧ x ≤ q / scale * (f / scale) / (m / scale)} size

/-- What the ratio loses or gains by its rounding takes the size over no unit: the lost parts are
covered by what the exact size has beyond its last unit, the added ones do not reach the next. -/
def RatioKept (q m f : ℕ) : Prop :=
  let rest := f * 10 ^ 20 % m
  let beyond := q * f % m
  if 2 * rest < m then q * rest ≤ 10 ^ 20 * beyond else q * (m - rest) < 10 ^ 20 * (m - beyond)

instance : Decidable (RatioKept q m f) := by
  unfold RatioKept
  infer_instance

theorem isGreatest_iff (hm : 0 < m) (n : ℕ) :
    IsGreatest {x | IsDecimal x ∧ x ≤ q / scale * (f / scale) / (m / scale)}
      (((n : ℤ) : ℚ) / scale) ↔ n = q * f / m := by
  have hm' : (0 : ℚ) < m := Nat.cast_pos.mpr hm
  have hbound (k : ℤ) : (k / scale : ℚ) ≤ q / scale * (f / scale) / (m / scale) ↔
      k ≤ (q * f / m : ℕ) := by
    have hexact : (q / scale * (f / scale) / (m / scale) : ℚ) =
        ((q * f : ℕ) : ℚ) / (m : ℚ) / scale := by
      push_cast
      field_simp [scale_pos.ne']
    rw [hexact, div_le_div_iff_of_pos_right scale_pos, ← Int.le_floor,
      Rat.floor_natCast_div_natCast]
    rfl
  constructor
  · rintro ⟨⟨-, hle⟩, hupper⟩
    have hle' := (hbound n).mp hle
    have hge := hupper ⟨⟨((q * f / m : ℕ) : ℤ), rfl⟩, (hbound _).mpr le_rfl⟩
    rw [div_le_div_iff_of_pos_right scale_pos, Int.cast_le] at hge
    omega
  · rintro rfl
    refine ⟨⟨⟨_, rfl⟩, (hbound _).mpr le_rfl⟩, ?_⟩
    rintro x ⟨⟨k, rfl⟩, hle⟩
    rw [div_le_div_iff_of_pos_right scale_pos, Int.cast_le]
    exact (hbound k).mp hle

theorem buysLargest_iff_units (hq : 0 < q) (hm : 0 < m) (hf : 0 < f) :
    BuysLargest q m f ↔ q * nearest (f * 10 ^ 20) m / 10 ^ 20 = q * f / m := by
  rw [← isGreatest_iff hm, BuysLargest, calculateBuyQuantity_units hq hm hf]
  constructor
  · rintro ⟨size, hsize, hgreatest⟩
    obtain rfl := BigNumber.finite.inj hsize
    exact hgreatest
  · exact fun hgreatest => ⟨_, rfl, hgreatest⟩

/-- For all positive amounts, the size is the largest one if and only if the rounding of the
ratio takes it over no unit. -/
theorem buysLargest_iff (q m f : ℕ) (hq : 0 < q) (hm : 0 < m) (hf : 0 < f) :
    BuysLargest q m f ↔ RatioKept q m f := by
  rw [buysLargest_iff_units hq hm hf, RatioKept]
  split
  · next h => exact mul_div_eq_iff_of_lt hm (by norm_num) h
  · next h => exact mul_div_eq_iff_of_le hm (by norm_num) (not_lt.mp h)

/-- A coin at half of what the master has. -/
theorem buysLargest_half : BuysLargest 100000000 1000000000000 500000000000 :=
  (buysLargest_iff _ _ _ (by decide) (by decide) (by decide)).mpr (by decide +kernel)

/-- A ratio close to 2/7 is rounded up, and five coins at it come to a unit too many. -/
theorem not_buysLargest_fiveCoins :
    ¬∀ q m f : ℕ, 0 < q → 0 < m → 0 < f → BuysLargest q m f := by
  intro h
  have hlargest := h 500000000 500000000007 142857143002 (by decide) (by decide) (by decide)
  rw [buysLargest_iff_units (by decide) (by decide) (by decide)] at hlargest
  exact absurd hlargest (by decide +kernel)

/-! ### Reservations of purchases -/

/-- The reservation of a copied purchase: its size times its protected price. -/
def reservation (q p m f s : ℕ) : BigNumber :=
  (calculateBuyQuantity (amount q) (amount m) (amount f)).value.multipliedBy
    (calculateProtectedPrice (amount p) (amount s) .buy).value

/-- The price with the slippage, rounded up to eight decimals. -/
def protectedPrice (p s : ℕ) : ℚ := ⌈p / scale * (1 + s / scale / 100) * scale⌉ / scale

theorem protectedPrice_nonneg (p s : ℕ) : 0 ≤ protectedPrice p s := by
  have := scale_pos
  have hceil : 0 ≤ ⌈(p / scale * (1 + s / scale / 100) * scale : ℚ)⌉ :=
    Int.ceil_nonneg (by positivity)
  exact div_nonneg (Int.cast_nonneg hceil) scale_pos.le

/-- The slippage is exact, and the price is rounded once. -/
theorem calculateProtectedPrice_buy (p s : ℕ) :
    (calculateProtectedPrice (amount p) (amount s) .buy).value = .finite (protectedPrice p s) := by
  have hslippage : roundQuotient (s / scale / 100) = s / scale / 100 := by
    have hparts : (s / scale / 100 : ℚ) = ((s * 10 ^ 10 : ℕ) : ℚ) / 10 ^ 20 := by
      rw [scale]
      push_cast
      ring
    rw [hparts, roundQuotient_parts]
  have hprice : (amount p).multipliedBy ((BigNumber.finite 1).plus
      ((amount s).dividedBy (.finite 100))) =
        .finite (p / scale * (1 + s / scale / 100)) := by
    rw [amount, amount, BigNumber.dividedBy, if_neg (by norm_num), Int.cast_natCast,
      Int.cast_natCast, hslippage]
    rfl
  have hnonneg : (0 : ℚ) ≤ p / scale * (1 + s / scale / 100) := by
    have := scale_pos
    positivity
  rw [calculateProtectedPrice, hprice, toFixed_of_nonneg .up hnonneg]
  rfl

/-- The size is at most the exact one and what half a part of the ratio adds. -/
theorem calculateBuyQuantity_le (q m f : ℕ) :
    ∃ size, (calculateBuyQuantity (amount q) (amount m) (amount f)).value = .finite size ∧
      0 ≤ size ∧ size ≤ q / scale * ((f / scale + m / scale / (2 * 10 ^ 20)) / (m / scale)) := by
  have hscale := scale_pos
  have hbound : (0 : ℚ) ≤ q / scale * ((f / scale + m / scale / (2 * 10 ^ 20)) / (m / scale)) := by
    positivity
  by_cases hpositive : 0 < q ∧ 0 < m ∧ 0 < f
  · obtain ⟨hq, hm, hf⟩ := hpositive
    have hm' : (0 : ℚ) < m := Nat.cast_pos.mpr hm
    have hratio : (nearest (f * 10 ^ 20) m : ℚ) / 10 ^ 20 ≤ f / m + 1 / (2 * 10 ^ 20) := by
      rw [← roundQuotient_div hm]
      exact roundQuotient_le (by positivity)
    have hdown : ((q * nearest (f * 10 ^ 20) m / 10 ^ 20 : ℕ) : ℚ) ≤
        ((q * nearest (f * 10 ^ 20) m : ℕ) : ℚ) / ((10 ^ 20 : ℕ) : ℚ) := Nat.cast_div_le
    refine ⟨_, calculateBuyQuantity_units hq hm hf, by positivity, ?_⟩
    calc (((q * nearest (f * 10 ^ 20) m / 10 ^ 20 : ℕ) : ℤ) : ℚ) / scale
        ≤ ((q * nearest (f * 10 ^ 20) m : ℕ) : ℚ) / ((10 ^ 20 : ℕ) : ℚ) / scale := by
          rw [Int.cast_natCast]
          gcongr
      _ = q / scale * (nearest (f * 10 ^ 20) m / 10 ^ 20) := by
          rw [Nat.cast_mul, Nat.cast_pow, Nat.cast_ofNat]
          ring
      _ ≤ q / scale * (f / m + 1 / (2 * 10 ^ 20)) := by gcongr
      _ = q / scale * ((f / scale + m / scale / (2 * 10 ^ 20)) / (m / scale)) := by
          field_simp
  · refine ⟨0, ?_, le_rfl, hbound⟩
    have hnone : ((amount m).isLessThanOrEqualTo zero || (amount f).isLessThanOrEqualTo zero ||
        (amount q).isLessThanOrEqualTo zero) = true := by
      simp only [amount_isLessThanOrEqualTo_zero, Bool.or_eq_true, decide_eq_true_eq]
      omega
    rw [calculateBuyQuantity, if_pos hnone, toFixed_zero]

theorem protectedPrice_le (p s : ℕ) :
    protectedPrice p s ≤ p / scale * (1 + s / scale / 100) + 1 / scale := by
  have hceil := (Int.ceil_lt_add_one (p / scale * (1 + s / scale / 100) * scale : ℚ)).le
  rw [protectedPrice, div_le_iff₀ scale_pos, add_mul, one_div_mul_cancel scale_pos.ne']
  exact hceil

/-- For all amounts where the master's purchase is covered by his balance, the copied one reserves
at most the part of the allocation that the purchase at the protected price is of the balance. That
is the allocation with the slippage, up to the roundings of the ratio and of the price. -/
theorem reservation_le (q p m f s : ℕ) (hcovered : (q / scale * (p / scale) : ℚ) ≤ m / scale) :
    ∃ r, reservation q p m f s = .finite r ∧
      r ≤ (f / scale + m / scale / (2 * 10 ^ 20)) *
        (q / scale * protectedPrice p s / (m / scale)) ∧
      r ≤ (f / scale + m / scale / (2 * 10 ^ 20)) *
        (1 + s / scale / 100 + q / scale / (10 ^ 8 * (m / scale))) := by
  have hscale := scale_pos
  obtain ⟨size, hsize, -, hle⟩ := calculateBuyQuantity_le q m f
  have hpart : size * protectedPrice p s ≤ (f / scale + m / scale / (2 * 10 ^ 20)) *
      (q / scale * protectedPrice p s / (m / scale)) := by
    calc size * protectedPrice p s
        ≤ q / scale * ((f / scale + m / scale / (2 * 10 ^ 20)) / (m / scale)) *
            protectedPrice p s := mul_le_mul_of_nonneg_right hle (protectedPrice_nonneg p s)
      _ = _ := by ring
  have hshare : q / scale * protectedPrice p s / (m / scale) ≤
      1 + s / scale / 100 + q / scale / (10 ^ 8 * (m / scale)) := by
    rcases Nat.eq_zero_or_pos m with rfl | hm
    · simp only [Nat.cast_zero, zero_div, div_zero, mul_zero, add_zero]
      positivity
    · have hm' : (0 : ℚ) < m := Nat.cast_pos.mpr hm
      have hprice := mul_le_mul_of_nonneg_left (protectedPrice_le p s)
        (by positivity : (0 : ℚ) ≤ q / scale)
      have hmaster := mul_le_mul_of_nonneg_right hcovered
        (by positivity : (0 : ℚ) ≤ 1 + s / scale / 100)
      rw [div_le_iff₀ (by positivity)]
      calc q / scale * protectedPrice p s
          ≤ q / scale * (p / scale) * (1 + s / scale / 100) + q / scale * (1 / scale) := by
            linarith
        _ ≤ m / scale * (1 + s / scale / 100) + q / scale * (1 / scale) := by gcongr
        _ = (1 + s / scale / 100 + q / scale / (10 ^ 8 * (m / scale))) * (m / scale) := by
            have hunit : (10 ^ 8 : ℚ) = scale := rfl
            rw [hunit]
            field_simp
  refine ⟨size * protectedPrice p s, ?_, hpart, hpart.trans ?_⟩
  · rw [reservation, hsize, calculateProtectedPrice_buy]
    rfl
  · exact mul_le_mul_of_nonneg_left hshare (by positivity)

/-- One coin for a hundred is all that the master has. -/
theorem reservation_le_oneCoin :
    ∃ r, reservation 100000000 10000000000 10000000000 10000000000 100000000 = .finite r ∧
      r ≤ (10000000000 / scale + 10000000000 / scale / (2 * 10 ^ 20)) *
        (1 + 100000000 / scale / 100 + 100000000 / scale / (10 ^ 8 * (10000000000 / scale))) := by
  obtain ⟨r, hr, -, hle⟩ := reservation_le 100000000 10000000000 10000000000 10000000000 100000000
    (by norm_num [scale])
  exact ⟨r, hr, hle⟩

/-- With a slippage of one percent, the allocation of a hundred does not cover the order. -/
theorem not_reservation_le_oneCoin : ¬∀ q p m f s : ℕ, (q / scale * (p / scale) : ℚ) ≤ m / scale →
    (s / scale : ℚ) ≤ 100 → ∃ r, reservation q p m f s = .finite r ∧ r ≤ f / scale := by
  intro h
  obtain ⟨r, hr, hle⟩ := h 100000000 10000000000 10000000000 10000000000 100000000
    (by norm_num [scale]) (by norm_num [scale])
  have hreservation : reservation 100000000 10000000000 10000000000 10000000000 100000000 =
      .finite 101 := by decide +kernel
  obtain rfl := BigNumber.finite.inj (hr.symm.trans hreservation)
  norm_num [scale] at hle

/-! ### Sales -/

/-- The size that a sale is copied with, where `s` units of `h` are sold, and `bought` and `sold`
units are completed. -/
def sellQuantity (s h bought sold : ℤ) : BigNumber :=
  (calculateSellQuantity (amount s) (amount h)
    (calculateSubPosition (amount bought) (amount sold)).value).value

/-- The part of a position that is sold, before it is rounded down. -/
def soldPart (s h position : ℤ) : ℚ :=
  if s ≤ 0 ∨ h ≤ 0 then 0 else min (position / scale * roundQuotient (s / h)) (position / scale)

/-- The units of a position that are sold. -/
def soldUnits (s h position : ℤ) : ℤ := roundDown (soldPart s h (max position 0))

variable {s s' h h' position position' : ℤ}

theorem soldPart_nonneg (hposition : 0 ≤ position) : 0 ≤ soldPart s h position := by
  have hpart : (0 : ℚ) ≤ position / scale :=
    div_nonneg (Int.cast_nonneg hposition) scale_pos.le
  unfold soldPart
  split
  · exact le_rfl
  · next hsome =>
    have hratio : (0 : ℚ) ≤ s / h :=
      div_nonneg (Int.cast_nonneg (by omega)) (Int.cast_nonneg (by omega))
    exact le_min (mul_nonneg hpart (roundQuotient_nonneg hratio)) hpart

theorem soldPart_le (hposition : 0 ≤ position) : soldPart s h position ≤ position / scale := by
  unfold soldPart
  split
  · exact div_nonneg (Int.cast_nonneg hposition) scale_pos.le
  · exact min_le_right _ _

/-- More is sold of a larger position, when the master sells more, and when he has less. -/
theorem soldPart_mono (hs : s ≤ s') (hh : 0 < h → 0 < h' ∧ h' ≤ h) (hposition : 0 ≤ position)
    (hle : position ≤ position') : soldPart s h position ≤ soldPart s' h' position' := by
  by_cases hnone : s ≤ 0 ∨ h ≤ 0
  · rw [soldPart, if_pos hnone]
    exact soldPart_nonneg (hposition.trans hle)
  · obtain ⟨hpos, hless⟩ := hh (by omega)
    have hpart : (0 : ℚ) ≤ position / scale :=
      div_nonneg (Int.cast_nonneg hposition) scale_pos.le
    have hlarger : (position / scale : ℚ) ≤ position' / scale :=
      div_le_div_of_nonneg_right (Int.cast_le.mpr hle) scale_pos.le
    have hs0 : (0 : ℚ) ≤ s := Int.cast_nonneg (by omega)
    have hratio : (s / h : ℚ) ≤ s' / h' :=
      div_le_div₀ (hs0.trans (Int.cast_le.mpr hs)) (Int.cast_le.mpr hs) (Int.cast_pos.mpr hpos)
        (Int.cast_le.mpr hless)
    have hratio0 : (0 : ℚ) ≤ s / h := div_nonneg hs0 (Int.cast_nonneg (by omega))
    rw [soldPart, soldPart, if_neg hnone, if_neg (by omega)]
    exact min_le_min (mul_le_mul hlarger (roundQuotient_mono hratio0 hratio)
      (roundQuotient_nonneg hratio0) (hpart.trans hlarger)) hlarger

/-- A master who sells all that he has is followed with the whole position. -/
theorem soldPart_all (hh : 0 < h) (hall : h ≤ s) (hposition : 0 ≤ position) :
    soldPart s h position = position / scale := by
  have hpart : (0 : ℚ) ≤ position / scale :=
    div_nonneg (Int.cast_nonneg hposition) scale_pos.le
  have hone : (1 : ℚ) ≤ s / h := (one_le_div (Int.cast_pos.mpr hh)).mpr (Int.cast_le.mpr hall)
  have hratio : 1 ≤ roundQuotient (s / h) := by
    have hexact := roundQuotient_parts (10 ^ 20)
    rw [Nat.cast_pow, Nat.cast_ofNat, div_self (by norm_num)] at hexact
    rw [← hexact]
    exact roundQuotient_mono zero_le_one hone
  rw [soldPart, if_neg (by omega), min_eq_right]
  exact le_mul_of_one_le_right hpart hratio

theorem roundDown_mono {x y : ℚ} (h : x ≤ y) : roundDown x ≤ roundDown y :=
  Int.floor_le_floor (mul_le_mul_of_nonneg_right h scale_pos.le)

/-- The size is a number of units that depends on the position only. -/
theorem sellQuantity_eq (s h bought sold : ℤ) :
    sellQuantity s h bought sold = amount (soldUnits s h (bought - sold)) := by
  have hposition : (calculateSubPosition (amount bought) (amount sold)).value =
      amount (max (bought - sold) 0) := calculateSubPosition_units bought sold
  have hnonneg : 0 ≤ max (bought - sold) 0 := le_max_right _ _
  rw [sellQuantity, hposition, soldUnits]
  generalize max (bought - sold) 0 = position at hnonneg
  simp only [calculateSellQuantity, amount_isLessThanOrEqualTo_zero, Bool.or_eq_true,
    decide_eq_true_eq]
  by_cases hnone : s ≤ 0 ∨ h ≤ 0
  · have hzero : soldPart s h position = 0 := by rw [soldPart, if_pos hnone]
    rw [if_pos (by omega), toFixed_zero, hzero]
    simp [roundDown, amount]
  · have hpart : soldPart s h position =
        min (position / scale * roundQuotient (s / h)) (position / scale) := by
      rw [soldPart, if_neg hnone]
    by_cases hempty : position ≤ 0
    · obtain rfl : position = 0 := le_antisymm hempty hnonneg
      rw [if_pos (by omega), toFixed_zero, hpart]
      simp [roundDown, amount]
    · have hraw : ((amount position).multipliedBy ((amount s).dividedBy (amount h))).min
          (amount position) = .finite (soldPart s h position) := by
        rw [dividedBy_amount _ _ (by omega), hpart, amount, BigNumber.multipliedBy, BigNumber.min,
          BigNumber.isGreaterThan]
        · simp only [decide_eq_true_eq, min_def]
          split <;> split <;> first | rfl | linarith
        all_goals exact BigNumber.noConfusion
      rw [if_neg (by omega), hraw, toFixed_down_of_nonneg (soldPart_nonneg hnonneg)]
      rfl

/-- What is asked of the sizes of sales: they are parts of the position, they grow with what the
master sells and with the position, they shrink when he has more, and nothing is left when he
sells all. -/
structure SizingLaws (size : ℤ → ℤ → ℤ → ℤ) : Prop where
  nonneg : ∀ s h position, 0 ≤ size s h position
  le_position : ∀ s h position, size s h position ≤ max position 0
  mono_sold : ∀ s s' h position, s ≤ s' → size s h position ≤ size s' h position
  mono_position : ∀ s h position position', position ≤ position' →
    size s h position ≤ size s h position'
  anti_held : ∀ s h h' position, 0 < h → h ≤ h' → size s h' position ≤ size s h position
  all : ∀ s h position, 0 < h → h ≤ s → size s h position = max position 0
  none : ∀ s h position, position ≤ 0 → size s h position = 0

theorem sizingLaws_soldUnits : SizingLaws soldUnits where
  nonneg s h position := roundDown_nonneg (soldPart_nonneg (le_max_right _ _))
  le_position s h position := by
    rw [← roundDown_units (max position 0)]
    exact roundDown_mono (soldPart_le (le_max_right _ _))
  mono_sold s s' h position hs :=
    roundDown_mono (soldPart_mono hs (fun hh => ⟨hh, le_rfl⟩) (le_max_right _ _) le_rfl)
  mono_position s h position position' hle :=
    roundDown_mono (soldPart_mono le_rfl (fun hh => ⟨hh, le_rfl⟩) (le_max_right _ _)
      (max_le_max_right _ hle))
  anti_held s h h' position hh hle :=
    roundDown_mono (soldPart_mono le_rfl (fun _ => ⟨hh, hle⟩) (le_max_right _ _) le_rfl)
  all s h position hh hall := by
    rw [soldUnits, soldPart_all hh hall (le_max_right _ _), roundDown_units]
  none s h position hnone := by
    have hle := roundDown_mono (soldPart_le (s := s) (h := h) (le_max_right position 0))
    have hnonneg : 0 ≤ soldUnits s h position :=
      roundDown_nonneg (soldPart_nonneg (le_max_right _ _))
    rw [roundDown_units, max_eq_right hnone] at hle
    rw [soldUnits, max_eq_right hnone] at hnonneg ⊢
    exact le_antisymm hle hnonneg

/-- For all amounts of any sign, the sizes of sales are numbers of units that obey the laws. -/
theorem sellQuantity_laws : ∃ size : ℤ → ℤ → ℤ → ℤ,
    (∀ s h bought sold, sellQuantity s h bought sold = amount (size s h (bought - sold))) ∧
      SizingLaws size :=
  ⟨soldUnits, sellQuantity_eq, sizingLaws_soldUnits⟩

end EtherTrade.CopySizeLaws
