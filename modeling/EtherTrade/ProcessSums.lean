import Mathlib.Algebra.BigOperators.Group.Finset.Piecewise
import Mathlib.Data.Nat.Notation

/-!
# Sums over processes

What processes numbered by `ℕ` contribute to a total, when all but finitely many of them
contribute nothing.
-/

namespace EtherTrade.ProcessSums

universe u v

variable {ℓ : Type u} {M : Type v} [AddCommGroup M] {f : ℓ → M} {procs : ℕ → ℓ} {x : M}

open scoped BigOperators

theorem sum_range_update (f : ℓ → M) (procs : ℕ → ℓ) {p n : ℕ} (hp : p < n) (l : ℓ) :
    ∑ q ∈ Finset.range n, f (Function.update procs p l q) =
      ∑ q ∈ Finset.range n, f (procs q) - f (procs p) + f l := by
  have hmem : p ∈ Finset.range n := Finset.mem_range.mpr hp
  have hupdate : (fun q => f (Function.update procs p l q)) =
      Function.update (fun q => f (procs q)) p (f l) := by
    funext q
    exact Function.apply_update (fun _ => f) procs p l q
  rw [hupdate, Finset.sum_update_of_mem hmem, Finset.sdiff_singleton_eq_erase,
    ← Finset.add_sum_erase _ _ hmem, add_sub_cancel_left, add_comm]

/-- The contributions of the processes add up to `x`. -/
def SumsTo (f : ℓ → M) (procs : ℕ → ℓ) (x : M) : Prop :=
  ∃ n, (∀ p, n ≤ p → f (procs p) = 0) ∧ ∑ p ∈ Finset.range n, f (procs p) = x

theorem sumsTo_zero (h : ∀ p, f (procs p) = 0) : SumsTo f procs 0 :=
  ⟨0, fun p _ => h p, Finset.sum_range_zero _⟩

theorem SumsTo.eq_zero (h : SumsTo f procs x) (hzero : ∀ p, f (procs p) = 0) : x = 0 := by
  obtain ⟨n, -, rfl⟩ := h
  exact Finset.sum_eq_zero fun p _ => hzero p

/-- More processes may be counted. -/
theorem sum_range_extend {n m : ℕ} (hzero : ∀ p, n ≤ p → f (procs p) = 0) (hle : n ≤ m) :
    ∑ p ∈ Finset.range m, f (procs p) = ∑ p ∈ Finset.range n, f (procs p) := by
  refine (Finset.sum_subset (Finset.range_subset_range.mpr hle) fun p _ hp => hzero p ?_).symm
  simpa using hp

/-- One process changes its contribution. -/
theorem SumsTo.update (h : SumsTo f procs x) (p : ℕ) (l : ℓ) :
    SumsTo f (Function.update procs p l) (x - f (procs p) + f l) := by
  obtain ⟨n, hzero, rfl⟩ := h
  refine ⟨max n (p + 1), fun q hq => ?_, ?_⟩
  · have hne : q ≠ p := by omega
    rw [Function.update_of_ne hne]
    exact hzero q (le_of_max_le_left hq)
  · rw [sum_range_update f procs (by omega), sum_range_extend hzero (le_max_left _ _)]

end EtherTrade.ProcessSums
