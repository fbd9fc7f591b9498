import Mathlib.Data.List.Basic

/-!
# Unwinding relations

A machine reads inputs one after the other; some of them are visible to an observer,
who sees the output of each visible input and an observation of the state after it. An
unwinding relation between two states is kept by hidden inputs on either side and by
equal visible inputs on both. From related states, input sequences that look alike to
the observer then give the observer the same trace.
-/

namespace EtherTrade.UnwindingRelations

universe u v w x y

/-- An input that cannot be given in a state has no result. -/
structure Machine (σ : Type u) (α : Type v) (β : Type w) where
  step : σ → α → Option (σ × β)

variable {σ : Type u} {α : Type v} {β : Type w} {γ : Type x} {ω : Type y}

namespace Machine

variable (M : Machine σ α β)

def exec : σ → List α → Option σ
  | s, [] => some s
  | s, a :: as => (M.step s a).bind fun r => exec r.1 as

/-- What the observer sees of a sequence of inputs. -/
def trace (view : α → Option γ) (observe : σ → ω) : σ → List α → Option (List (β × ω))
  | _, [] => some []
  | s, a :: as => (M.step s a).bind fun r =>
      (trace view observe r.1 as).map fun seen =>
        if (view a).isSome then (r.2, observe r.1) :: seen else seen

/-- A relation on states that the inputs in `allowed` keep, and under which the observer
cannot tell two states apart. -/
structure Unwinding (view : α → Option γ) (observe : σ → ω) (allowed : α → Prop)
    (R : σ → σ → Prop) : Prop where
  symm : ∀ {s t}, R s t → R t s
  observe_eq : ∀ {s t}, R s t → observe s = observe t
  hidden : ∀ {s t s' a b}, R s t → allowed a → view a = none → M.step s a = some (s', b) → R s' t
  visible : ∀ {s t s' t' a a' b b' g}, R s t → allowed a → allowed a' → view a = some g →
    view a' = some g → M.step s a = some (s', b) → M.step t a' = some (t', b') →
      b = b' ∧ R s' t'

variable {M} {view : α → Option γ} {observe : σ → ω} {allowed : α → Prop} {R : σ → σ → Prop}
  {s t : σ} {as as' : List α} {seen seen' : List (β × ω)}

/-- The trace of a sequence that starts with a hidden input is that of the rest. -/
theorem trace_cons_hidden {a : α} (h : M.trace view observe s (a :: as) = some seen)
    (ha : view a = none) :
    ∃ s' b, M.step s a = some (s', b) ∧ M.trace view observe s' as = some seen := by
  simp only [trace, ha, Option.isSome_none, Bool.false_eq_true, if_false,
    Option.bind_eq_some_iff, Option.map_id_fun', id_eq] at h
  obtain ⟨⟨s', b⟩, hstep, htrace⟩ := h
  exact ⟨s', b, hstep, htrace⟩

theorem trace_cons_visible {a : α} {g : γ} (h : M.trace view observe s (a :: as) = some seen)
    (ha : view a = some g) : ∃ s' b rest, M.step s a = some (s', b) ∧
      M.trace view observe s' as = some rest ∧ seen = (b, observe s') :: rest := by
  simp only [trace, ha, Option.isSome_some, if_true, Option.bind_eq_some_iff,
    Option.map_eq_some_iff] at h
  obtain ⟨⟨s', b⟩, hstep, rest, hrest, rfl⟩ := h
  exact ⟨s', b, rest, hstep, hrest, rfl⟩

/-- Hidden inputs alone show nothing. -/
theorem Unwinding.trace_hidden (hR : M.Unwinding view observe allowed R) (hst : R s t)
    (has : ∀ a ∈ as, allowed a) (hview : as.filterMap view = [])
    (h : M.trace view observe s as = some seen) : seen = [] := by
  induction as generalizing s with
  | nil => exact (Option.some.inj h).symm
  | cons a as ih =>
    have ha : view a = none := by
      cases hva : view a with
      | none => rfl
      | some g => simp [hva] at hview
    obtain ⟨s', b, hstep, htrace⟩ := trace_cons_hidden h ha
    rw [List.filterMap_cons_none ha] at hview
    exact ih (hR.hidden hst (has a List.mem_cons_self) ha hstep)
      (fun x hx => has x (List.mem_cons_of_mem _ hx)) hview htrace

/-- From related states, inputs that look alike give the same trace. -/
theorem Unwinding.trace_eq (hR : M.Unwinding view observe allowed R) (hst : R s t)
    (has : ∀ a ∈ as, allowed a) (has' : ∀ a ∈ as', allowed a)
    (hview : as.filterMap view = as'.filterMap view)
    (h : M.trace view observe s as = some seen) (h' : M.trace view observe t as' = some seen') :
    seen = seen' := by
  induction as generalizing s t as' seen seen' with
  | nil =>
    obtain rfl := Option.some.inj h
    exact (hR.trace_hidden (hR.symm hst) has' hview.symm h').symm
  | cons a as ih =>
    have hrest : ∀ x ∈ as, allowed x := fun x hx => has x (List.mem_cons_of_mem _ hx)
    have ha := has a List.mem_cons_self
    cases hva : view a with
    | none =>
      obtain ⟨s', b, hstep, htrace⟩ := trace_cons_hidden h hva
      rw [List.filterMap_cons_none hva] at hview
      exact ih (hR.hidden hst ha hva hstep) hrest has' hview htrace h'
    | some g =>
      obtain ⟨s', b, rest, hstep, htrace, rfl⟩ := trace_cons_visible h hva
      rw [List.filterMap_cons_some hva] at hview
      -- the hidden inputs before the matching one are on the right
      clear h
      induction as' generalizing t with
      | nil => cases hview
      | cons a' as' ih' =>
        have ha' := has' a' List.mem_cons_self
        have hrest' : ∀ x ∈ as', allowed x := fun x hx => has' x (List.mem_cons_of_mem _ hx)
        cases hva' : view a' with
        | none =>
          obtain ⟨t', b', hstep', htrace'⟩ := trace_cons_hidden h' hva'
          rw [List.filterMap_cons_none hva'] at hview
          exact ih' (hR.symm (hR.hidden (hR.symm hst) ha' hva' hstep')) hrest' htrace' hview
        | some g' =>
          obtain ⟨t', b', rest', hstep', htrace', rfl⟩ := trace_cons_visible h' hva'
          rw [List.filterMap_cons_some hva'] at hview
          obtain ⟨rfl, hviews⟩ := List.cons.inj hview
          obtain ⟨rfl, hst'⟩ := hR.visible hst ha ha' hva hva' hstep hstep'
          rw [hR.observe_eq hst', ih hst' hrest hrest' hviews htrace htrace']

end Machine

end EtherTrade.UnwindingRelations
