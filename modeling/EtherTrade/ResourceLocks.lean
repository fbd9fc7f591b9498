import Mathlib.Data.Nat.Notation
import Mathlib.Logic.Function.Basic

/-!
# Exclusive locks held to the end of a transaction

A lock table says which process holds each resource. Processes take resources one at
a time and give all of them back together. A store seen through the resources, by a
view of each, changes only where the acting process holds the lock or where nobody
does; what a process has seen under its own locks is therefore still there.
-/

namespace EtherTrade.ResourceLocks

universe u v w

variable {R : Type u}

/-- The process that holds each resource. -/
abbrev LockTable (R : Type u) := R → Option ℕ

namespace LockTable

def free : LockTable R := fun _ => none

/-- Nobody else holds the resource. -/
def Available (t : LockTable R) (p : ℕ) (r : R) : Prop := t r = none ∨ t r = some p

instance (t : LockTable R) (p : ℕ) (r : R) : Decidable (t.Available p r) :=
  inferInstanceAs (Decidable (_ ∨ _))

def acquire [DecidableEq R] (t : LockTable R) (p : ℕ) (r : R) : LockTable R :=
  Function.update t r (some p)

def acquireAll [DecidableEq R] (t : LockTable R) (p : ℕ) (rs : List R) : LockTable R :=
  rs.foldl (fun t r => t.acquire p r) t

/-- The end of a transaction: every lock of `p` is given back. -/
def release (t : LockTable R) (p : ℕ) : LockTable R :=
  fun r => if t r = some p then none else t r

/-- Nobody but `p` holds anything. -/
def OnlyHeldBy (t : LockTable R) (p : ℕ) : Prop := ∀ r, t.Available p r

@[simp] theorem available_free (p : ℕ) (r : R) : (free : LockTable R).Available p r := Or.inl rfl

theorem onlyHeldBy_free (p : ℕ) : (free : LockTable R).OnlyHeldBy p := available_free p

theorem OnlyHeldBy.release {t : LockTable R} {p : ℕ} (h : t.OnlyHeldBy p) : t.release p = free := by
  funext r
  rcases h r with hr | hr <;> simp [LockTable.release, free, hr]

theorem OnlyHeldBy.acquire [DecidableEq R] {t : LockTable R} {p : ℕ} (h : t.OnlyHeldBy p) (r : R) :
    (t.acquire p r).OnlyHeldBy p := by
  intro r'
  by_cases hr : r' = r
  · subst hr
    exact Or.inr (Function.update_self ..)
  · rw [Available, LockTable.acquire, Function.update_of_ne hr]
    exact h r'

variable [DecidableEq R] {t : LockTable R} {p q : ℕ} {r r' : R}

@[simp] theorem acquire_self : t.acquire p r r = some p := Function.update_self ..

theorem acquire_of_ne (h : r' ≠ r) : t.acquire p r r' = t r' := Function.update_of_ne h _ _

/-- Taking one more resource keeps those already held. -/
theorem acquire_own (h : t r' = some p) : t.acquire p r r' = some p := by
  by_cases he : r' = r
  · subst he
    exact acquire_self
  · rwa [acquire_of_ne he]

/-- Taking an available resource takes nothing from another process. -/
theorem acquire_other (ha : t.Available p r) (hpq : p ≠ q) (h : t r' = some q) :
    t.acquire p r r' = some q := by
  have hne : r' ≠ r := by
    rintro rfl
    rcases ha with ha | ha <;> rw [h] at ha
    · cases ha
    · exact hpq (Option.some.inj ha).symm
  rwa [acquire_of_ne hne]

theorem acquireAll_eq (rs : List R) :
    t.acquireAll p rs r = if r ∈ rs then some p else t r := by
  induction rs generalizing t with
  | nil => rfl
  | cons r' rs ih =>
    change (t.acquire p r').acquireAll p rs r = _
    rw [ih]
    by_cases hrs : r ∈ rs
    · simp [hrs]
    · by_cases hr : r = r'
      · simp [hr]
      · simp [hrs, hr, acquire_of_ne]

theorem acquire_eq_some : t.acquire p r r' = some q ↔ r' = r ∧ q = p ∨ r' ≠ r ∧ t r' = some q := by
  by_cases h : r' = r
  · subst h
    simp [eq_comm]
  · simp [h, acquire_of_ne h]

omit [DecidableEq R] in
theorem release_eq_some : t.release p r = some q ↔ t r = some q ∧ q ≠ p := by
  unfold release
  split
  · next h =>
    constructor
    · intro hnone
      cases hnone
    · rintro ⟨hq, hne⟩
      exact absurd (Option.some.inj (hq.symm.trans h)) hne
  · next h =>
    refine ⟨fun hq => ⟨hq, ?_⟩, And.left⟩
    rintro rfl
    exact h hq

omit [DecidableEq R] in
theorem release_other (hpq : p ≠ q) (h : t r' = some q) : t.release p r' = some q := by
  simp [release, h, Ne.symm hpq]

end LockTable

/-- A store together with the locks on it. -/
structure Locked (σ : Type v) (R : Type u) where
  store : σ
  locks : LockTable R

variable {σ : Type v} {V : Type w} (view : σ → R → V)

/-- Process `q` still holds what it held, and sees there what it saw. -/
def Keeps (q : ℕ) (s s' : Locked σ R) : Prop :=
  ∀ r, s.locks r = some q → s'.locks r = some q ∧ view s'.store r = view s.store r

variable {view} {p q : ℕ} {s s' : Locked σ R}

theorem Keeps.view_eq (h : Keeps view q s s') {r : R} (hr : s.locks r = some q) :
    view s'.store r = view s.store r := (h r hr).2

theorem Keeps.locks_eq (h : Keeps view q s s') {r : R} (hr : s.locks r = some q) :
    s'.locks r = some q := (h r hr).1

theorem Keeps.refl (q : ℕ) (s : Locked σ R) : Keeps view q s s := fun _ h => ⟨h, rfl⟩

theorem keeps_acquire [DecidableEq R] {r : R} (hpq : p ≠ q) (ha : s.locks.Available p r) :
    Keeps view q s ⟨s.store, s.locks.acquire p r⟩ :=
  fun _ h => ⟨LockTable.acquire_other ha hpq h, rfl⟩

theorem keeps_release (hpq : p ≠ q) : Keeps view q s ⟨s.store, s.locks.release p⟩ :=
  fun _ h => ⟨LockTable.release_other hpq h, rfl⟩

/-- A process may change what it can lock without taking anything from another. -/
theorem keeps_of_available {store : σ} (hpq : p ≠ q)
    (h : ∀ r, view store r ≠ view s.store r → s.locks.Available p r) :
    Keeps view q s ⟨store, s.locks⟩ := by
  intro r hr
  refine ⟨hr, by_contra fun hne => ?_⟩
  rcases h r hne with hfree | hown
  · rw [hfree] at hr
    cases hr
  · rw [hown] at hr
    exact hpq (Option.some.inj hr)

theorem Keeps.trans {s'' : Locked σ R} (h : Keeps view q s s') (h' : Keeps view q s' s'') :
    Keeps view q s s'' := by
  intro r hr
  obtain ⟨hl, hv⟩ := h r hr
  obtain ⟨hl', hv'⟩ := h' r hl
  exact ⟨hl', hv'.trans hv⟩

end EtherTrade.ResourceLocks
