import Mathlib.Data.Nat.Notation
import Mathlib.Logic.Function.Basic

/-!
# Interleaved processes over a shared store

A system is a family of processes, numbered by `ℕ`, that act one step at a time on
one shared store. A run is any finite interleaving of enabled steps. A guard
restricts the runs considered; it is a condition on the configuration before the
step. Invariants are proved once for a step and carried to runs here.
-/

namespace EtherTrade.InterleavedProcesses

universe u v w

/-- `step p s l a` is what process `p` in local state `l` does to the store `s` when
it performs `a`. A process that cannot perform `a`, because it is blocked or because
`a` is not its next statement, has no result. -/
structure System (σ : Type u) (ℓ : Type v) (α : Type w) where
  step : ℕ → σ → ℓ → α → Option (σ × ℓ)

structure Config (σ : Type u) (ℓ : Type v) where
  shared : σ
  procs : ℕ → ℓ

/-- One scheduled action: the process and what it performs. -/
structure Event (α : Type w) where
  proc : ℕ
  action : α
  deriving DecidableEq, Repr

variable {σ : Type u} {ℓ : Type v} {α : Type w}

namespace System

variable (S : System σ ℓ α)

def next (c : Config σ ℓ) (e : Event α) : Option (Config σ ℓ) :=
  (S.step e.proc c.shared (c.procs e.proc) e.action).map
    fun r => ⟨r.1, Function.update c.procs e.proc r.2⟩

/-- Execute a schedule, stopping at the first event that is not enabled. -/
def exec : Config σ ℓ → List (Event α) → Option (Config σ ℓ)
  | c, [] => some c
  | c, e :: es => (S.next c e).bind fun d => exec d es

/-- Every step of the schedule meets the guard in the configuration it starts from. -/
def Guarded (guard : Config σ ℓ → Event α → Prop) : Config σ ℓ → List (Event α) → Prop
  | _, [] => True
  | c, e :: es => guard c e ∧ ∀ d, S.next c e = some d → Guarded guard d es

/-- A run under a guard. -/
structure Run (guard : Config σ ℓ → Event α → Prop) (c : Config σ ℓ) (es : List (Event α))
    (d : Config σ ℓ) : Prop where
  executes : S.exec c es = some d
  guarded : S.Guarded guard c es

/-- One transition of a run, with the configurations on both sides. -/
structure Transition (σ : Type u) (ℓ : Type v) (α : Type w) where
  before : Config σ ℓ
  event : Event α
  after : Config σ ℓ

/-- The transitions a schedule performs, in order. -/
def transitions : Config σ ℓ → List (Event α) → List (Transition σ ℓ α)
  | _, [] => []
  | c, e :: es => match S.next c e with
    | none => []
    | some d => ⟨c, e, d⟩ :: transitions d es

variable {S} {guard : Config σ ℓ → Event α → Prop} {c d : Config σ ℓ} {e : Event α}
  {es : List (Event α)}

theorem next_eq_some : S.next c e = some d ↔ ∃ s l,
    S.step e.proc c.shared (c.procs e.proc) e.action = some (s, l) ∧
      d = ⟨s, Function.update c.procs e.proc l⟩ := by
  simp only [next, Option.map_eq_some_iff, Prod.exists]
  constructor
  · rintro ⟨s, l, h, rfl⟩
    exact ⟨s, l, h, rfl⟩
  · rintro ⟨s, l, h, rfl⟩
    exact ⟨s, l, h, rfl⟩

theorem next_procs_of_ne (h : S.next c e = some d) {p : ℕ} (hp : p ≠ e.proc) :
    d.procs p = c.procs p := by
  obtain ⟨s, l, -, rfl⟩ := next_eq_some.mp h
  exact Function.update_of_ne hp _ _

/-- A process that a schedule does not mention stays where it is. -/
theorem exec_procs_of_notMem (h : S.exec c es = some d) {p : ℕ} (hp : ∀ e ∈ es, p ≠ e.proc) :
    d.procs p = c.procs p := by
  induction es generalizing c with
  | nil =>
    obtain rfl : c = d := Option.some.inj h
    rfl
  | cons e es ih =>
    obtain ⟨m, hm, hx⟩ := Option.bind_eq_some_iff.mp h
    rw [ih hx fun e' he' => hp e' (List.mem_cons_of_mem _ he'),
      next_procs_of_ne hm (hp e List.mem_cons_self)]

/-- A process behind all that a schedule mentions stays where it is. -/
theorem exec_procs_of_le (h : S.exec c es = some d) {n p : ℕ}
    (hall : es.all (fun e => e.proc < n) = true) (hp : n ≤ p) : d.procs p = c.procs p := by
  refine exec_procs_of_notMem h fun e he heq => ?_
  have hlt : e.proc < n := of_decide_eq_true (List.all_eq_true.mp hall e he)
  exact absurd (heq ▸ hlt) (Nat.not_lt.mpr hp)

namespace Run

theorem nil (c : Config σ ℓ) : S.Run guard c [] c := ⟨rfl, trivial⟩

theorem cons_iff : S.Run guard c (e :: es) d ↔
    guard c e ∧ ∃ m, S.next c e = some m ∧ S.Run guard m es d := by
  constructor
  · rintro ⟨hx, hg, hrest⟩
    obtain ⟨m, hm, hx⟩ := Option.bind_eq_some_iff.mp hx
    exact ⟨hg, m, hm, hx, hrest m hm⟩
  · rintro ⟨hg, m, hm, hx, hrest⟩
    refine ⟨Option.bind_eq_some_iff.mpr ⟨m, hm, hx⟩, hg, ?_⟩
    intro m' hm'
    obtain rfl : m = m' := Option.some.inj (hm.symm.trans hm')
    exact hrest

/-- An executed schedule is a run under every guard that its transitions meet. -/
theorem of_transitions (h : S.exec c es = some d)
    (hguard : ∀ t ∈ S.transitions c es, guard t.before t.event) : S.Run guard c es d := by
  refine ⟨h, ?_⟩
  induction es generalizing c with
  | nil => trivial
  | cons e es ih =>
    obtain ⟨m, hm, hx⟩ := Option.bind_eq_some_iff.mp h
    simp only [transitions, hm, List.mem_cons, forall_eq_or_imp] at hguard
    refine ⟨hguard.1, fun d' hd' => ?_⟩
    obtain rfl : m = d' := Option.some.inj (hm.symm.trans hd')
    exact ih hx hguard.2

/-- An executed schedule is a run under a guard that a check of its transitions establishes. -/
theorem of_check {check : Transition σ ℓ α → Bool} (h : S.exec c es = some d)
    (hall : (S.transitions c es).all check = true)
    (hcheck : ∀ t, check t = true → guard t.before t.event) : S.Run guard c es d :=
  .of_transitions h fun t ht => hcheck t (List.all_eq_true.mp hall t ht)

/-- What each guarded step preserves, a whole run preserves. -/
theorem invariant {I : Config σ ℓ → Prop} (h : S.Run guard c es d) (h0 : I c)
    (hstep : ∀ c e d, I c → guard c e → S.next c e = some d → I d) : I d := by
  induction es generalizing c with
  | nil =>
    obtain rfl : c = d := Option.some.inj h.executes
    exact h0
  | cons e es ih =>
    obtain ⟨hg, m, hm, hr⟩ := cons_iff.mp h
    exact ih hr (hstep c e m h0 hg hm)

/-- The invariant of a configuration and the schedule that led to it. -/
theorem history_invariant {I : List (Event α) → Config σ ℓ → Prop} (h : S.Run guard c es d)
    (h0 : I [] c) (hstep : ∀ fs c e d, I fs c → guard c e → S.next c e = some d → I (fs ++ [e]) d) :
    I es d := by
  have hgeneral : ∀ fs, I fs c → I (fs ++ es) d := by
    clear h0
    induction es generalizing c with
    | nil =>
      obtain rfl : c = d := Option.some.inj h.executes
      intro fs hfs
      rwa [List.append_nil]
    | cons e es ih =>
      obtain ⟨hg, m, hm, hr⟩ := cons_iff.mp h
      intro fs hfs
      have hrest := ih hr (fs ++ [e]) (hstep fs c e m hfs hg hm)
      rwa [List.append_assoc] at hrest
  exact hgeneral [] h0

/-- The invariant of a configuration and the transitions that led to it. -/
theorem trace_invariant {I : List (Transition σ ℓ α) → Config σ ℓ → Prop}
    (h : S.Run guard c es d) (h0 : I [] c)
    (hstep : ∀ ts c e d, I ts c → guard c e → S.next c e = some d → I (ts ++ [⟨c, e, d⟩]) d) :
    I (S.transitions c es) d := by
  have hgeneral : ∀ ts, I ts c → I (ts ++ S.transitions c es) d := by
    clear h0
    induction es generalizing c with
    | nil =>
      obtain rfl : c = d := Option.some.inj h.executes
      intro ts hts
      rwa [transitions, List.append_nil]
    | cons e es ih =>
      obtain ⟨hg, m, hm, hr⟩ := cons_iff.mp h
      intro ts hts
      have hrest := ih hr (ts ++ [⟨c, e, m⟩]) (hstep ts c e m hts hg hm)
      rw [List.append_assoc, List.singleton_append] at hrest
      simpa only [transitions, hm] using hrest
  exact hgeneral [] h0

/-- Each transition of a run starts in a configuration that satisfies the invariant. -/
theorem transitions_invariant {I : Config σ ℓ → Prop} (h : S.Run guard c es d) (h0 : I c)
    (hstep : ∀ c e d, I c → guard c e → S.next c e = some d → I d) :
    ∀ t ∈ S.transitions c es, I t.before ∧ guard t.before t.event ∧
      S.next t.before t.event = some t.after := by
  induction es generalizing c with
  | nil => simp [transitions]
  | cons e es ih =>
    obtain ⟨hg, m, hm, hr⟩ := cons_iff.mp h
    intro t ht
    simp only [transitions, hm, List.mem_cons] at ht
    rcases ht with rfl | ht
    · exact ⟨h0, hg, hm⟩
    · exact ih hr (hstep c e m h0 hg hm) t ht

/-- A run whose transitions meet a second guard is a run under both. -/
theorem strengthen {guard' : Config σ ℓ → Event α → Prop} (h : S.Run guard c es d)
    (h' : ∀ t ∈ S.transitions c es, guard' t.before t.event) :
    S.Run (fun c e => guard c e ∧ guard' c e) c es d := by
  have hguard := h.transitions_invariant (I := fun _ => True) trivial fun _ _ _ _ _ _ => trivial
  exact .of_transitions h.executes fun t ht => ⟨(hguard t ht).2.1, h' t ht⟩

end Run

/-- What each step preserves, an executed schedule preserves. -/
theorem exec_invariant {I : Config σ ℓ → Prop} (h : S.exec c es = some d) (h0 : I c)
    (hstep : ∀ c e d, I c → S.next c e = some d → I d) : I d := by
  have hrun : S.Run (fun _ _ => True) c es d := .of_transitions h fun _ _ => trivial
  exact hrun.invariant h0 fun c e d hc _ hnext => hstep c e d hc hnext

/-- The invariant of a configuration and the transitions that led to it, without a guard. -/
theorem exec_trace_invariant {I : List (Transition σ ℓ α) → Config σ ℓ → Prop}
    (h : S.exec c es = some d) (h0 : I [] c)
    (hstep : ∀ ts c e d, I ts c → S.next c e = some d → I (ts ++ [⟨c, e, d⟩]) d) :
    I (S.transitions c es) d := by
  have hrun : S.Run (fun _ _ => True) c es d := .of_transitions h fun _ _ => trivial
  exact hrun.trace_invariant h0 fun ts c e d hts _ hnext => hstep ts c e d hts hnext

/-- A transition of an executed schedule lies between two executed parts of it. -/
theorem exec_transition (h : S.exec c es = some d) {t : Transition σ ℓ α}
    (ht : t ∈ S.transitions c es) : ∃ earlier later, es = earlier ++ t.event :: later ∧
      S.exec c earlier = some t.before ∧ S.next t.before t.event = some t.after ∧
        S.exec t.after later = some d := by
  induction es generalizing c with
  | nil => simp [transitions] at ht
  | cons e es ih =>
    obtain ⟨m, hm, hx⟩ := Option.bind_eq_some_iff.mp h
    simp only [transitions, hm, List.mem_cons] at ht
    rcases ht with rfl | ht
    · exact ⟨[], es, rfl, rfl, hm, hx⟩
    · obtain ⟨earlier, later, rfl, hearlier, hnext, hlater⟩ := ih hx ht
      exact ⟨e :: earlier, later, rfl, by simp [exec, hm, hearlier], hnext, hlater⟩

/-- A process behind all that a schedule mentions is where it was before each transition. -/
theorem transitions_procs_of_le (h : S.exec c es = some d) {n p : ℕ}
    (hall : es.all (fun e => e.proc < n) = true) (hp : n ≤ p) {t : Transition σ ℓ α}
    (ht : t ∈ S.transitions c es) : t.before.procs p = c.procs p := by
  obtain ⟨earlier, later, rfl, hearlier, -⟩ := exec_transition h ht
  rw [List.all_append, Bool.and_eq_true] at hall
  exact exec_procs_of_le hearlier hall.1 hp

/-- A step of one process changes a property of another process only through its state. -/
theorem next_proc {L : ℓ → Prop} (h : S.next c e = some d) {p : ℕ} (hp : L (c.procs p))
    (hstep : ∀ s a s' l', S.step p s (c.procs p) a = some (s', l') → L l') : L (d.procs p) := by
  by_cases hpe : p = e.proc
  · subst hpe
    obtain ⟨s, l, hs, rfl⟩ := next_eq_some.mp h
    simpa using hstep _ _ _ _ hs
  · rwa [next_procs_of_ne h hpe]

/-- A process in a state from which it cannot act stays there. -/
theorem exec_procs_of_final (h : S.exec c es = some d) {p : ℕ}
    (hfinal : ∀ s a, S.step p s (c.procs p) a = none) : d.procs p = c.procs p := by
  induction es generalizing c with
  | nil =>
    obtain rfl : c = d := Option.some.inj h
    rfl
  | cons e es ih =>
    obtain ⟨m, hm, hr⟩ := Option.bind_eq_some_iff.mp h
    have hp : p ≠ e.proc := by
      rintro rfl
      obtain ⟨s, l, hs, -⟩ := next_eq_some.mp hm
      rw [hfinal] at hs
      cases hs
    have hproc := next_procs_of_ne hm hp
    rw [ih hr (by rw [hproc]; exact hfinal), hproc]

/-- Transitions that happen exactly when a lasting condition `φ` begins to hold: there is
one of them if the run makes `φ` true, and none otherwise. -/
theorem Run.length_filter_transitions {I φ : Config σ ℓ → Prop} {P : Transition σ ℓ α → Bool}
    (h : S.Run guard c es d) (h0 : I c)
    (hstep : ∀ c e d, I c → guard c e → S.next c e = some d → I d)
    (hφ : ∀ c e d, I c → guard c e → S.next c e = some d →
      (φ c → φ d) ∧ (P ⟨c, e, d⟩ = true ↔ ¬φ c ∧ φ d)) :
    (φ c → φ d) ∧ (φ c ∨ ¬φ d → ((S.transitions c es).filter P).length = 0) ∧
      (¬φ c → φ d → ((S.transitions c es).filter P).length = 1) := by
  induction es generalizing c with
  | nil =>
    obtain rfl : c = d := Option.some.inj h.executes
    refine ⟨id, fun _ => rfl, fun hn hp => absurd hp hn⟩
  | cons e es ih =>
    obtain ⟨hg, m, hm, hr⟩ := Run.cons_iff.mp h
    obtain ⟨hkeep, hP⟩ := hφ c e m h0 hg hm
    obtain ⟨hkeep', hzero, hone⟩ := ih hr (hstep c e m h0 hg hm)
    simp only [transitions, hm, List.filter_cons]
    refine ⟨fun hc => hkeep' (hkeep hc), fun hc => ?_, fun hc hd => ?_⟩
    · have hPfalse : P ⟨c, e, m⟩ ≠ true := by
        intro ht
        obtain ⟨hn, hpm⟩ := hP.mp ht
        rcases hc with hc | hd
        · exact hn hc
        · exact hd (hkeep' hpm)
      rw [if_neg hPfalse]
      exact hzero (hc.imp_left hkeep)
    · by_cases hpm : φ m
      · rw [if_pos (hP.mpr ⟨hc, hpm⟩), List.length_cons, hzero (Or.inl hpm)]
      · have hPfalse : P ⟨c, e, m⟩ ≠ true := fun ht => hpm (hP.mp ht).2
        rw [if_neg hPfalse]
        exact hone hpm hd

/-! ### One process alone -/

/-- What process `p` does while the others stand still. -/
def runAlone (S : System σ ℓ α) (p : ℕ) : σ → ℓ → List α → Option (σ × ℓ)
  | s, l, [] => some (s, l)
  | s, l, a :: actions => (S.step p s l a).bind fun r => runAlone S p r.1 r.2 actions

/-- Alone, process `p` can get from one store and state to another. -/
def Reaches (S : System σ ℓ α) (p : ℕ) (s : σ) (l : ℓ) (s' : σ) (l' : ℓ) : Prop :=
  ∃ actions, S.runAlone p s l actions = some (s', l')

/-- What there is to see of the steps of process `p` alone, in order. -/
def observed {β : Type} (S : System σ ℓ α) (p : ℕ) (see : σ → ℓ → α → Option β) :
    σ → ℓ → List α → List β
  | _, _, [] => []
  | s, l, a :: actions => (see s l a).toList ++
      ((S.step p s l a).map fun r => observed S p see r.1 r.2 actions).getD []

section Alone

variable {p : ℕ} {s s' s'' : σ} {l l' l'' : ℓ} {a : α}

theorem runAlone_append {actions later : List α} (h : S.runAlone p s l actions = some (s', l')) :
    S.runAlone p s l (actions ++ later) = S.runAlone p s' l' later := by
  induction actions generalizing s l with
  | nil =>
    obtain ⟨rfl, rfl⟩ := Prod.mk.inj (Option.some.inj h)
    rfl
  | cons a actions ih =>
    obtain ⟨r, hstep, hrest⟩ := Option.bind_eq_some_iff.mp h
    rw [List.cons_append, runAlone, hstep, Option.bind_some]
    exact ih hrest

theorem observed_cons {β : Type} {see : σ → ℓ → α → Option β} {actions : List α}
    (h : S.step p s l a = some (s', l')) :
    S.observed p see s l (a :: actions) =
      (see s l a).toList ++ S.observed p see s' l' actions := by
  rw [observed, h, Option.map_some, Option.getD_some]

/-- What each step preserves together with what is seen of it, a run alone preserves. -/
theorem runAlone_invariant {β : Type} {see : σ → ℓ → α → Option β} {I : σ → ℓ → List β → Prop}
    (hstep : ∀ s l a s' l' seen, I s l seen → S.step p s l a = some (s', l') →
      I s' l' (seen ++ (see s l a).toList))
    {seen : List β} (h0 : I s l seen) {actions : List α}
    (h : S.runAlone p s l actions = some (s', l')) :
    I s' l' (seen ++ S.observed p see s l actions) := by
  induction actions generalizing s l seen with
  | nil =>
    obtain ⟨rfl, rfl⟩ := Prod.mk.inj (Option.some.inj h)
    rwa [observed, List.append_nil]
  | cons a actions ih =>
    obtain ⟨r, hnext, hrest⟩ := Option.bind_eq_some_iff.mp h
    rw [observed_cons hnext, ← List.append_assoc]
    exact ih (hstep _ _ _ _ _ _ h0 hnext) hrest

theorem Reaches.refl (s : σ) (l : ℓ) : S.Reaches p s l s l := ⟨[], rfl⟩

theorem Reaches.of_step (h : S.step p s l a = some (s', l')) : S.Reaches p s l s' l' :=
  ⟨[a], by simp [runAlone, h]⟩

theorem Reaches.trans (h : S.Reaches p s l s' l') (h' : S.Reaches p s' l' s'' l'') :
    S.Reaches p s l s'' l'' := by
  obtain ⟨actions, hactions⟩ := h
  obtain ⟨later, hlater⟩ := h'
  exact ⟨actions ++ later, (runAlone_append hactions).trans hlater⟩

theorem Reaches.step (h : S.step p s l a = some (s', l')) (h' : S.Reaches p s' l' s'' l'') :
    S.Reaches p s l s'' l'' := (Reaches.of_step h).trans h'

/-- What a process does alone is a schedule of the system. -/
theorem exec_of_runAlone {c : Config σ ℓ} {actions : List α}
    (h : S.runAlone p c.shared (c.procs p) actions = some (s', l')) :
    S.exec c (actions.map fun a => ⟨p, a⟩) = some ⟨s', Function.update c.procs p l'⟩ := by
  induction actions generalizing c with
  | nil =>
    obtain ⟨hs, hl⟩ := Prod.mk.inj (Option.some.inj h)
    rw [List.map_nil, exec, ← hs, ← hl, Function.update_eq_self]
  | cons a actions ih =>
    obtain ⟨r, hstep, hrest⟩ := Option.bind_eq_some_iff.mp h
    have hnext : S.next c ⟨p, a⟩ = some ⟨r.1, Function.update c.procs p r.2⟩ := by
      simp [next, hstep]
    have hrest' := ih (c := ⟨r.1, Function.update c.procs p r.2⟩) (by simpa using hrest)
    rw [List.map_cons, exec, hnext, Option.bind_some, hrest', Function.update_idem]

/-- What a process reaches alone, a schedule of the system reaches. -/
theorem Reaches.exec {c : Config σ ℓ} (h : S.Reaches p c.shared (c.procs p) s' l') :
    ∃ actions : List α, S.exec c (actions.map fun a => ⟨p, a⟩) =
      some ⟨s', Function.update c.procs p l'⟩ := by
  obtain ⟨actions, hrun⟩ := h
  exact ⟨actions, exec_of_runAlone hrun⟩

end Alone

end System

end EtherTrade.InterleavedProcesses
