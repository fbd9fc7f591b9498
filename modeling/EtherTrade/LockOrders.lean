import Mathlib.Data.Fintype.Order
import Mathlib.Logic.Relation
import Mathlib.Order.WellFounded
import EtherTrade.ResourceLocks

/-!
# Locks taken in one order

Processes request resources that others may hold. When resources are ranked and every
process requests only what ranks above all that it holds, no processes wait for each
other in a circle, and of finitely many that wait only among themselves, one does not
wait.
-/

namespace EtherTrade.LockOrders

open ResourceLocks

universe u v

variable {R : Type u} {γ : Type v}

/-- Process `p` requests a resource that process `q` holds. -/
def WaitsFor (requests : ℕ → R → Prop) (t : LockTable R) (p q : ℕ) : Prop :=
  p ≠ q ∧ ∃ r, requests p r ∧ t r = some q

/-- What a process holds ranks below what it requests. -/
def Ranked [LT γ] (rank : R → γ) (requests : ℕ → R → Prop) (t : LockTable R) : Prop :=
  ∀ p r held, requests p r → t held = some p → rank held < rank r

variable {rank : R → γ} {requests : ℕ → R → Prop} {t : LockTable R} {p q : ℕ}

/-- Along a chain of waiting processes the rank does not go down. -/
theorem Ranked.le_of_chain [Preorder γ] (h : Ranked rank requests t)
    (hchain : Relation.TransGen (WaitsFor requests t) p q) :
    ∃ r held, requests p r ∧ t held = some q ∧ rank r ≤ rank held := by
  induction hchain with
  | single hwaits =>
    obtain ⟨-, r, hr, hheld⟩ := hwaits
    exact ⟨r, r, hr, hheld, le_rfl⟩
  | tail _ hwaits ih =>
    obtain ⟨r, held, hr, hheld, hle⟩ := ih
    obtain ⟨-, r', hr', hheld'⟩ := hwaits
    exact ⟨r, r', hr, hheld', hle.trans (h _ _ _ hr' hheld).le⟩

/-- Nobody waits for itself through others. -/
theorem Ranked.acyclic [Preorder γ] (h : Ranked rank requests t) (p : ℕ) :
    ¬Relation.TransGen (WaitsFor requests t) p p := by
  intro hchain
  obtain ⟨r, held, hr, hheld, hle⟩ := h.le_of_chain hchain
  exact (h p r held hr hheld).not_ge hle

/-- Of finitely many processes that wait only for each other, one waits for nobody. -/
theorem exists_not_waiting {P : Finset ℕ} (hne : P.Nonempty)
    (hacyclic : ∀ p, ¬Relation.TransGen (WaitsFor requests t) p p)
    (hclosed : ∀ p ∈ P, ∀ q, WaitsFor requests t p q → q ∈ P) :
    ∃ p ∈ P, ∀ q, ¬WaitsFor requests t p q := by
  let R' : P → P → Prop := fun q p => Relation.TransGen (WaitsFor requests t) p q
  have htrans : IsTrans P R' := ⟨fun _ _ _ hab hbc => hbc.trans hab⟩
  have hirrefl : Std.Irrefl R' := ⟨fun p => hacyclic p⟩
  have hwf : WellFounded R' := Finite.wellFounded_of_trans_of_irrefl R'
  obtain ⟨p, -, hp⟩ := hwf.has_min Set.univ ⟨⟨_, hne.choose_spec⟩, trivial⟩
  refine ⟨p, p.2, fun q hwaits => ?_⟩
  exact hp ⟨q, hclosed p p.2 q hwaits⟩ trivial (.single hwaits)

end EtherTrade.LockOrders
