import Mathlib.Algebra.Order.Floor.Ring
import Mathlib.Data.Rat.Floor
import Mathlib.Tactic.Linarith
import Mathlib.Tactic.Ring

/-!
# Quotients that are rounded before they are multiplied

A quotient is kept in parts of a unit, to the nearest part, and is multiplied afterwards. Whether
the product still has the whole units that the exact one has is told by two remainders.
-/

namespace EtherTrade.RoundedQuotients

variable {a b q f m parts : ℕ}

/-- The integer nearest to the quotient, the larger one of two. -/
def nearest (a b : ℕ) : ℕ := (2 * a + b) / (2 * b)

theorem floor_add_half (a b : ℕ) (hb : 0 < b) : ⌊(a / b + 1 / 2 : ℚ)⌋ = nearest a b := by
  have hb' : (b : ℚ) ≠ 0 := Nat.cast_ne_zero.mpr hb.ne'
  have hsum : (a / b + 1 / 2 : ℚ) = ((2 * a + b : ℕ) : ℚ) / ((2 * b : ℕ) : ℚ) := by
    push_cast
    field_simp
  rw [hsum, Rat.floor_natCast_div_natCast, nearest]
  rfl

theorem nearest_of_lt (h : 2 * (a % b) < b) : nearest a b = a / b := by
  have ha := Nat.div_add_mod a b
  refine Nat.div_eq_of_lt_le ?_ ?_
  · calc a / b * (2 * b) = 2 * (b * (a / b)) := by ring
      _ ≤ 2 * a + b := by omega
  · calc 2 * a + b < 2 * (b * (a / b)) + 2 * b := by omega
      _ = (a / b + 1) * (2 * b) := by ring

theorem nearest_of_le (hb : 0 < b) (h : b ≤ 2 * (a % b)) : nearest a b = a / b + 1 := by
  have ha := Nat.div_add_mod a b
  have hmod := Nat.mod_lt a hb
  refine Nat.div_eq_of_lt_le ?_ ?_
  · calc (a / b + 1) * (2 * b) = 2 * (b * (a / b)) + 2 * b := by ring
      _ ≤ 2 * a + b := by omega
  · calc 2 * a + b < 2 * (b * (a / b)) + 2 * (2 * b) := by omega
      _ = (a / b + 1 + 1) * (2 * b) := by ring

/-- Where the quotient is rounded down, the product is low by so many parts of a unit. -/
theorem mul_div_eq_iff_of_lt (hm : 0 < m) (hparts : 0 < parts)
    (h : 2 * (f * parts % m) < m) :
    q * nearest (f * parts) m / parts = q * f / m ↔
      q * (f * parts % m) ≤ parts * (q * f % m) := by
  have hquotient := Nat.div_add_mod (f * parts) m
  have hproduct := Nat.div_add_mod (q * f) m
  have hrest := Nat.mod_lt (q * f) hm
  rw [nearest_of_lt h]
  generalize f * parts / m = A at *
  generalize f * parts % m = R at *
  generalize q * f / m = B at *
  generalize q * f % m = S at *
  -- the rounded product falls short of the exact one by `q * R` of `m` parts
  have hshort : m * (q * A) + q * R = m * (B * parts) + parts * S := by
    calc m * (q * A) + q * R = q * (m * A + R) := by ring
      _ = (m * B + S) * parts := by rw [hquotient, hproduct]; ring
      _ = m * (B * parts) + parts * S := by ring
  have hbelow : q * A < (B + 1) * parts := by
    refine Nat.lt_of_mul_lt_mul_left (a := m) ?_
    have hS : parts * S < parts * m := Nat.mul_lt_mul_of_pos_left hrest hparts
    calc m * (q * A) ≤ m * (B * parts) + parts * S := by omega
      _ < m * (B * parts) + parts * m := by omega
      _ = m * ((B + 1) * parts) := by ring
  rw [Nat.div_eq_iff hparts]
  constructor
  · rintro ⟨hle, -⟩
    have := Nat.mul_le_mul_left m hle
    omega
  · intro hle
    refine ⟨Nat.le_of_mul_le_mul_left ?_ hm, ?_⟩
    · omega
    · have : (B + 1) * parts = B * parts + parts := by ring
      omega

/-- Where it is rounded up, the product is high by so many parts of a unit. -/
theorem mul_div_eq_iff_of_le (hm : 0 < m) (hparts : 0 < parts)
    (h : m ≤ 2 * (f * parts % m)) :
    q * nearest (f * parts) m / parts = q * f / m ↔
      q * (m - f * parts % m) < parts * (m - q * f % m) := by
  have hquotient := Nat.div_add_mod (f * parts) m
  have hproduct := Nat.div_add_mod (q * f) m
  have hrest := Nat.mod_lt (q * f) hm
  have hpart := Nat.mod_lt (f * parts) hm
  rw [nearest_of_le hm h]
  generalize f * parts / m = A at *
  generalize f * parts % m = R at *
  generalize q * f / m = B at *
  generalize q * f % m = S at *
  obtain ⟨R', hR'⟩ : ∃ R', m - R = R' := ⟨_, rfl⟩
  obtain ⟨S', hS'⟩ : ∃ S', m - S = S' := ⟨_, rfl⟩
  rw [hR', hS']
  obtain rfl : m = R + R' := by omega
  -- the rounded product exceeds the exact one by `q * R'` of `m` parts
  have hhigh : (R + R') * (q * (A + 1)) = (R + R') * (B * parts) + parts * S + q * R' := by
    calc (R + R') * (q * (A + 1)) = q * ((R + R') * A + R) + q * R' := by ring
      _ = ((R + R') * B + S) * parts + q * R' := by rw [hquotient, hproduct]; ring
      _ = (R + R') * (B * parts) + parts * S + q * R' := by ring
  have habove : B * parts ≤ q * (A + 1) := by
    refine Nat.le_of_mul_le_mul_left ?_ hm
    omega
  have hunit : (R + R') * ((B + 1) * parts) =
      (R + R') * (B * parts) + parts * S + parts * S' := by
    have hsum : R + R' = S + S' := by omega
    calc (R + R') * ((B + 1) * parts) = (R + R') * (B * parts) + parts * (R + R') := by ring
      _ = (R + R') * (B * parts) + parts * (S + S') := by rw [← hsum]
      _ = (R + R') * (B * parts) + parts * S + parts * S' := by ring
  have hsucc : (B + 1) * parts = B * parts + parts := by ring
  rw [Nat.div_eq_iff hparts]
  constructor
  · rintro ⟨-, hlt⟩
    have : (R + R') * (q * (A + 1)) < (R + R') * ((B + 1) * parts) :=
      Nat.mul_lt_mul_of_pos_left (by omega) hm
    omega
  · intro hlt
    have : q * (A + 1) < (B + 1) * parts := Nat.lt_of_mul_lt_mul_left (a := R + R') (by omega)
    omega

end EtherTrade.RoundedQuotients
