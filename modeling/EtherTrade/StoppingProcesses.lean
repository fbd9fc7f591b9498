import EtherTrade.InterleavedProcesses

/-!
# Processes that stop, and actions that are ruled out

Two systems made from another: one in which only some actions are allowed, and one in which
any process may stop for good at any point and drop what it was about to do.
-/

namespace EtherTrade.InterleavedProcesses.System

universe u v w

variable {σ : Type u} {ℓ : Type v} {α : Type w}

/-- Only allowed actions are performed. -/
def restrict (S : System σ ℓ α) (allowed : α → Prop) [DecidablePred allowed] : System σ ℓ α :=
  ⟨fun p s l a => if allowed a then S.step p s l a else none⟩

/-- A process performs an action, or it stops and stays in the state `stopped`. -/
def withStops (S : System σ ℓ α) (stopped : ℓ) : System σ ℓ (Option α) :=
  ⟨fun p s l a => match a with
    | some a => S.step p s l a
    | none => some (s, stopped)⟩

variable {S : System σ ℓ α} {c d : Config σ ℓ}

theorem restrict_next {allowed : α → Prop} [DecidablePred allowed] {e : Event α}
    (h : (S.restrict allowed).next c e = some d) : allowed e.action ∧ S.next c e = some d := by
  obtain ⟨s, l, hstep, rfl⟩ := next_eq_some.mp h
  change (if allowed e.action then _ else none) = _ at hstep
  by_cases hallowed : allowed e.action
  · rw [if_pos hallowed] at hstep
    exact ⟨hallowed, next_eq_some.mpr ⟨s, l, hstep, rfl⟩⟩
  · rw [if_neg hallowed] at hstep
    exact (Option.some_ne_none _ hstep.symm).elim

/-- A step is one of the system, or its process stops. -/
theorem withStops_next {stopped : ℓ} {p : ℕ} {a : Option α}
    (h : (S.withStops stopped).next c ⟨p, a⟩ = some d) :
    (∃ action, a = some action ∧ S.next c ⟨p, action⟩ = some d) ∨
      (a = none ∧ d = ⟨c.shared, Function.update c.procs p stopped⟩) := by
  obtain ⟨s, l, hstep, rfl⟩ := next_eq_some.mp h
  cases a with
  | some action => exact Or.inl ⟨action, rfl, next_eq_some.mpr ⟨s, l, hstep, rfl⟩⟩
  | none =>
    obtain ⟨rfl, rfl⟩ := Prod.mk.inj (Option.some.inj hstep)
    exact Or.inr ⟨rfl, rfl⟩

end EtherTrade.InterleavedProcesses.System
