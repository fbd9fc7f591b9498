import EtherTrade.InterleavedProcesses

/-!
# Two systems of which one feeds the other

A system whose actions are answered by a second one as far as the store of the first allows:
a consumer reads only what a broker holds. Each side of a run is a run of its own, so that
what holds in every run of either system holds of the coupled one.
-/

namespace EtherTrade.CoupledSystems

open InterleavedProcesses

universe u

/-- Two systems, and the action that the second performs for a request, given the store of the
first. A request without an action is refused. -/
structure Coupling (σ σ' ℓ ℓ' α α' β : Type u) where
  first : System σ ℓ α
  second : System σ' ℓ' α'
  feed : σ → β → Option α'

inductive Action (α β : Type u) where
  | first (action : α)
  | second (request : β)
  deriving DecidableEq, Repr

variable {σ σ' ℓ ℓ' α α' β : Type u} (C : Coupling σ σ' ℓ ℓ' α α' β)

def step (p : ℕ) (s : σ × σ') (l : ℓ × ℓ') : Action α β → Option ((σ × σ') × (ℓ × ℓ'))
  | .first action => (C.first.step p s.1 l.1 action).map fun r => ((r.1, s.2), (r.2, l.2))
  | .second request => (C.feed s.1 request).bind fun action =>
      (C.second.step p s.2 l.2 action).map fun r => ((s.1, r.1), (l.1, r.2))

def coupledSystem : System (σ × σ') (ℓ × ℓ') (Action α β) := ⟨step C⟩

/-- One process does for both systems what it does for either. -/
def together (c : Config σ ℓ) (d : Config σ' ℓ') : Config (σ × σ') (ℓ × ℓ') :=
  ⟨(c.shared, d.shared), fun p => (c.procs p, d.procs p)⟩

def firstConfig (c : Config (σ × σ') (ℓ × ℓ')) : Config σ ℓ :=
  ⟨c.shared.1, fun p => (c.procs p).1⟩

def secondConfig (c : Config (σ × σ') (ℓ × ℓ')) : Config σ' ℓ' :=
  ⟨c.shared.2, fun p => (c.procs p).2⟩

variable {C} {c d : Config (σ × σ') (ℓ × ℓ')} {e : Event (Action α β)}
  {es : List (Event (Action α β))} {p : ℕ}

theorem firstConfig_update (s : σ × σ') (l : ℓ × ℓ') :
    firstConfig ⟨s, Function.update c.procs p l⟩ =
      ⟨s.1, Function.update (firstConfig c).procs p l.1⟩ :=
  congrArg (Config.mk s.1)
    (funext fun q => Function.apply_update (fun _ => Prod.fst) c.procs p l q)

theorem secondConfig_update (s : σ × σ') (l : ℓ × ℓ') :
    secondConfig ⟨s, Function.update c.procs p l⟩ =
      ⟨s.2, Function.update (secondConfig c).procs p l.2⟩ :=
  congrArg (Config.mk s.2)
    (funext fun q => Function.apply_update (fun _ => Prod.snd) c.procs p l q)

/-- A step of the coupled systems is a step of one of them; the other stands still. -/
theorem next_cases (h : (coupledSystem C).next c e = some d) :
    (∃ action, e.action = .first action ∧
      C.first.next (firstConfig c) ⟨e.proc, action⟩ = some (firstConfig d) ∧
        secondConfig d = secondConfig c) ∨
    ∃ request action, e.action = .second request ∧ C.feed c.shared.1 request = some action ∧
      C.second.next (secondConfig c) ⟨e.proc, action⟩ = some (secondConfig d) ∧
        firstConfig d = firstConfig c := by
  obtain ⟨s, l, hstep, rfl⟩ := System.next_eq_some.mp h
  change step C e.proc c.shared (c.procs e.proc) e.action = some (s, l) at hstep
  rw [firstConfig_update, secondConfig_update]
  cases haction : e.action with
  | first action =>
    rw [haction] at hstep
    obtain ⟨⟨s', l'⟩, hfirst, heq⟩ := Option.map_eq_some_iff.mp hstep
    obtain ⟨rfl, rfl⟩ := Prod.mk.inj heq
    refine Or.inl ⟨action, rfl, System.next_eq_some.mpr ⟨s', l', hfirst, rfl⟩, ?_⟩
    exact congrArg (Config.mk c.shared.2) (Function.update_eq_self e.proc _)
  | second request =>
    rw [haction] at hstep
    obtain ⟨action, hfeed, hstep⟩ := Option.bind_eq_some_iff.mp hstep
    obtain ⟨⟨s', l'⟩, hsecond, heq⟩ := Option.map_eq_some_iff.mp hstep
    obtain ⟨rfl, rfl⟩ := Prod.mk.inj heq
    refine Or.inr ⟨request, action, rfl, hfeed,
      System.next_eq_some.mpr ⟨s', l', hsecond, rfl⟩, ?_⟩
    exact congrArg (Config.mk c.shared.1) (Function.update_eq_self e.proc _)

/-- What either side keeps in every step of its own, given what the other keeps, a run keeps. -/
theorem exec_invariant {I : Config σ ℓ → Prop} {J : Config σ ℓ → Config σ' ℓ' → Prop}
    (h : (coupledSystem C).exec c es = some d) (hI : I (firstConfig c))
    (hJ : J (firstConfig c) (secondConfig c))
    (hfirst : ∀ c e d c', I c → J c c' → C.first.next c e = some d → I d ∧ J d c')
    (hsecond : ∀ c p request action c' d', I c → J c c' → C.feed c.shared request = some action →
      C.second.next c' ⟨p, action⟩ = some d' → J c d') :
    I (firstConfig d) ∧ J (firstConfig d) (secondConfig d) := by
  refine System.exec_invariant (I := fun c => I (firstConfig c) ∧ J (firstConfig c)
    (secondConfig c)) h ⟨hI, hJ⟩ fun c e d ⟨hI, hJ⟩ hnext => ?_
  rcases next_cases hnext with ⟨action, -, hstep, hsame⟩ | ⟨request, action, -, hfeed, hstep, hsame⟩
  · rw [hsame]
    exact hfirst _ _ _ _ hI hJ hstep
  · rw [hsame]
    exact ⟨hI, hsecond _ _ _ _ _ _ hI hJ hfeed hstep⟩

end EtherTrade.CoupledSystems
