import Mathlib.Data.Nat.Notation
import Mathlib.Logic.Relation

/-!
# Contracts that call each other

Programs of known contracts on a shared store, which send messages and go on with the
answers. A message may reach code that is not known: that code may send whatever messages
its account may send, to any depth, also back to contracts that are waiting for it. A call
that fails leaves no trace, and every call may fail. What all calls guarantee is proved
once, from what each known program guarantees when the calls it makes do.
-/

namespace EtherTrade.ReentrantCalls

universe u

/-- A program of a contract, over a store `σ`, messages `μ`, and outputs and errors `ρ`. -/
inductive Program (σ μ ρ α : Type u) : Type u where
  | pure (a : α)
  | revert (error : ρ)
  | get (next : σ → Program σ μ ρ α)
  | put (s : σ) (next : Program σ μ ρ α)
  | call (m : μ) (next : Except ρ ρ → Program σ μ ρ α)

variable {σ μ ρ α β : Type u}

namespace Program

def bind : Program σ μ ρ α → (α → Program σ μ ρ β) → Program σ μ ρ β
  | .pure a, f => f a
  | .revert error, _ => .revert error
  | .get next, f => .get fun s => (next s).bind f
  | .put s next, f => .put s (next.bind f)
  | .call m next, f => .call m fun r => (next r).bind f

instance : Monad (Program σ μ ρ) where
  pure := Program.pure
  bind := Program.bind

/-- The store as it is now. -/
def read : Program σ μ ρ σ := .get .pure

def modify (f : σ → σ) : Program σ μ ρ PUnit := .get fun s => .put (f s) (.pure ⟨⟩)

/-- Send a message, and learn whether it failed. -/
def send (m : μ) : Program σ μ ρ (Except ρ ρ) := .call m .pure

/-- What every run from a store satisfies at its end, unless it reverts, when each message it
sends is answered as `Spec` says. -/
def Ensures (Spec : μ → σ → Except ρ ρ → σ → Prop) : Program σ μ ρ α → (α → σ → Prop) → σ → Prop
  | .pure a, Q, s => Q a s
  | .revert _, _, _ => True
  | .get next, Q, s => (next s).Ensures Spec Q s
  | .put s next, Q, _ => next.Ensures Spec Q s
  | .call m next, Q, s => ∀ r s', Spec m s r s' → (next r).Ensures Spec Q s'

variable {Spec : μ → σ → Except ρ ρ → σ → Prop} {p : Program σ μ ρ α}
  {f : α → Program σ μ ρ β} {Q Q' : α → σ → Prop} {s : σ} {m : μ}

theorem Ensures.mono (h : p.Ensures Spec Q s) (hQ : ∀ a s', Q a s' → Q' a s') :
    p.Ensures Spec Q' s := by
  induction p generalizing s with
  | pure a => exact hQ a s h
  | revert error => trivial
  | get next ih => exact ih s h
  | put s' next ih => exact ih h
  | call m next ih => exact fun r s' hspec => ih r (h r s' hspec)

/-- A program followed by another. -/
@[simp] theorem ensures_bind {Q : β → σ → Prop} : (p >>= f).Ensures Spec Q s ↔
    p.Ensures Spec (fun a s' => (f a).Ensures Spec Q s') s := by
  induction p generalizing s with
  | pure a => exact Iff.rfl
  | revert error => exact Iff.rfl
  | get next ih => exact ih s
  | put s' next ih => exact ih
  | call m next ih => exact forall₃_congr fun r s' _ => ih r

@[simp] theorem ensures_pure {a : α} :
    (Pure.pure a : Program σ μ ρ α).Ensures Spec Q s ↔ Q a s := Iff.rfl

@[simp] theorem ensures_revert {error : ρ} :
    (Program.revert error : Program σ μ ρ α).Ensures Spec Q s ↔ True := Iff.rfl

@[simp] theorem ensures_read {Q : σ → σ → Prop} :
    (read : Program σ μ ρ σ).Ensures Spec Q s ↔ Q s s := Iff.rfl

@[simp] theorem ensures_modify {g : σ → σ} {Q : PUnit → σ → Prop} :
    (modify g : Program σ μ ρ PUnit).Ensures Spec Q s ↔ Q ⟨⟩ (g s) := Iff.rfl

@[simp] theorem ensures_send {Q : Except ρ ρ → σ → Prop} :
    (send m : Program σ μ ρ _).Ensures Spec Q s ↔ ∀ r s', Spec m s r s' → Q r s' := Iff.rfl

/-- The program sends no message. -/
def Silent : Program σ μ ρ α → Prop
  | .pure _ => True
  | .revert _ => True
  | .get next => ∀ s, (next s).Silent
  | .put _ next => next.Silent
  | .call _ _ => False

/-- Then it does whatever it ensures, and nothing that is said of messages matters. -/
theorem Silent.ensures {Spec' : μ → σ → Except ρ ρ → σ → Prop} (h : p.Silent) :
    p.Ensures Spec (fun a s' => ∀ Q, p.Ensures Spec' Q s → Q a s') s := by
  induction p generalizing s with
  | pure a => exact fun Q hQ => hQ
  | revert error => trivial
  | get next ih => exact ih s (h s)
  | put s' next ih => exact ih h
  | call m next => exact h.elim

theorem Silent.bind (h : p.Silent) (hf : ∀ a, (f a).Silent) : (p >>= f).Silent := by
  induction p with
  | pure a => exact hf a
  | revert error => trivial
  | get next ih => exact fun s => ih s (h s)
  | put s' next ih => exact ih h
  | call m next => exact h.elim

end Program

/-- Known contracts and what unknown ones may do. -/
structure Machine (σ μ ρ : Type u) where
  /-- What a message changes by itself, before any code runs; without a result it fails. -/
  enter : μ → σ → Option σ
  /-- The program that a message runs, where it is known. -/
  code : μ → Option (Program σ μ ρ ρ)
  /-- Unknown code that the first message reached may send the second. -/
  maySend : μ → μ → Prop
  /-- Unknown code that a message reached may change the store by itself. -/
  mayChange : μ → σ → σ → Prop
  /-- The store may change between messages. -/
  drift : σ → σ → Prop

/-- What is run: a message from its sending on, a program, or unknown code. -/
inductive Job (σ μ ρ : Type u) where
  | message (m : μ)
  | program (p : Program σ μ ρ ρ)
  | unknown (m : μ)

/-- A job may run from one store to another, with this answer. -/
inductive Runs (M : Machine σ μ ρ) : Job σ μ ρ → σ → Except ρ ρ → σ → Prop
  | failed {m : μ} {s : σ} {error : ρ} : Runs M (.message m) s (.error error) s
  | known {m : μ} {s s₁ s₂ : σ} {p : Program σ μ ρ ρ} {output : ρ}
      (henter : M.enter m s = some s₁) (hcode : M.code m = some p)
      (hrun : Runs M (.program p) s₁ (.ok output) s₂) : Runs M (.message m) s (.ok output) s₂
  | other {m : μ} {s s₁ s₂ : σ} {output : ρ} (henter : M.enter m s = some s₁)
      (hcode : M.code m = none) (hrun : Runs M (.unknown m) s₁ (.ok output) s₂) :
      Runs M (.message m) s (.ok output) s₂
  | pure {output : ρ} {s : σ} : Runs M (.program (.pure output)) s (.ok output) s
  | get {next : σ → Program σ μ ρ ρ} {s s' : σ} {r : Except ρ ρ}
      (hrun : Runs M (.program (next s)) s r s') : Runs M (.program (.get next)) s r s'
  | put {next : Program σ μ ρ ρ} {s s₁ s' : σ} {r : Except ρ ρ}
      (hrun : Runs M (.program next) s₁ r s') : Runs M (.program (.put s₁ next)) s r s'
  | call {m : μ} {next : Except ρ ρ → Program σ μ ρ ρ} {s s₁ s' : σ} {r r' : Except ρ ρ}
      (hcall : Runs M (.message m) s r s₁) (hrun : Runs M (.program (next r)) s₁ r' s') :
      Runs M (.program (.call m next)) s r' s'
  | stop {m : μ} {s : σ} {output : ρ} : Runs M (.unknown m) s (.ok output) s
  | change {m : μ} {s s₁ s' : σ} {r : Except ρ ρ} (hchange : M.mayChange m s s₁)
      (hrun : Runs M (.unknown m) s₁ r s') : Runs M (.unknown m) s r s'
  | send {m m' : μ} {s s₁ s' : σ} {r r' : Except ρ ρ} (hsend : M.maySend m m')
      (hcall : Runs M (.message m') s r s₁) (hrun : Runs M (.unknown m) s₁ r' s') :
      Runs M (.unknown m) s r' s'

/-- One move of unknown code that a message reached. -/
def Moves (M : Machine σ μ ρ) (Spec : μ → σ → Except ρ ρ → σ → Prop) (m : μ) (s s' : σ) : Prop :=
  M.mayChange m s s' ∨ ∃ m' r, M.maySend m m' ∧ Spec m' s r s'

/-- What suffices for a guarantee of all calls: failure meets it, known programs meet it when
their calls do, and so do messages to unknown code. -/
structure Guarantees (M : Machine σ μ ρ) (Spec : μ → σ → Except ρ ρ → σ → Prop) : Prop where
  failed : ∀ m s error, Spec m s (.error error) s
  known : ∀ m p s s₁, M.enter m s = some s₁ → M.code m = some p →
    p.Ensures Spec (fun output s₂ => Spec m s (.ok output) s₂) s₁
  other : ∀ m s s₁ s₂ output, M.enter m s = some s₁ → M.code m = none →
    Relation.ReflTransGen (Moves M Spec m) s₁ s₂ → Spec m s (.ok output) s₂

variable {M : Machine σ μ ρ} {Spec : μ → σ → Except ρ ρ → σ → Prop} {m : μ} {s s' : σ}
  {r : Except ρ ρ}

/-- What the run of a job has met, when its calls met the guarantee. -/
def Meets (M : Machine σ μ ρ) (Spec : μ → σ → Except ρ ρ → σ → Prop) :
    Job σ μ ρ → σ → Except ρ ρ → σ → Prop
  | .message m, s, r, s' => Spec m s r s'
  | .program p, s, r, s' => ∀ Q, p.Ensures Spec Q s → ∃ output, r = .ok output ∧ Q output s'
  | .unknown m, s, _, s' => Relation.ReflTransGen (Moves M Spec m) s s'

theorem Guarantees.meets {job : Job σ μ ρ} (h : Guarantees M Spec) (hrun : Runs M job s r s') :
    Meets M Spec job s r s' := by
  induction hrun with
  | failed => exact h.failed _ _ _
  | known henter hcode _ ih =>
    obtain ⟨output, heq, hspec⟩ := ih _ (h.known _ _ _ _ henter hcode)
    cases heq
    exact hspec
  | other henter hcode _ ih => exact h.other _ _ _ _ _ henter hcode ih
  | pure => exact fun Q hQ => ⟨_, rfl, hQ⟩
  | get _ ih => exact fun Q hQ => ih Q hQ
  | put _ ih => exact fun Q hQ => ih Q hQ
  | call _ _ ihcall ih => exact fun Q hQ => ih Q (hQ _ _ ihcall)
  | stop => exact .refl
  | change hchange _ ih => exact .head (Or.inl hchange) ih
  | send hsend _ _ ihcall ih => exact .head (Or.inr ⟨_, _, hsend, ihcall⟩) ih

/-- Every call meets the guarantee, however the contracts call each other. -/
theorem Guarantees.spec (h : Guarantees M Spec) (hrun : Runs M (.message m) s r s') :
    Spec m s r s' := h.meets hrun

/-- Stores between which messages of outside accounts lead, one after the other. -/
def Leads (M : Machine σ μ ρ) (Outside : μ → Prop) : σ → σ → Prop :=
  Relation.ReflTransGen fun s s' => M.drift s s' ∨ ∃ m r, Outside m ∧ Runs M (.message m) s r s'

theorem Leads.mono {Outside Outside' : μ → Prop} (hsub : ∀ m, Outside m → Outside' m)
    (h : Leads M Outside s s') : Leads M Outside' s s' :=
  Relation.ReflTransGen.mono (fun _ _ => Or.imp_right fun ⟨m, r, houtside, hrun⟩ =>
    ⟨m, r, hsub m houtside, hrun⟩) _ _ h

/-- What every message of an outside account preserves, a history preserves. -/
theorem Guarantees.leads {Outside : μ → Prop} {I : σ → Prop} (h : Guarantees M Spec)
    (hleads : Leads M Outside s s') (hI : I s) (hdrift : ∀ s s', I s → M.drift s s' → I s')
    (hstep : ∀ m s r s', Outside m → I s → Spec m s r s' → I s') : I s' := by
  induction hleads with
  | refl => exact hI
  | tail _ hlast ih =>
    rcases hlast with hlast | ⟨m, r, houtside, hrun⟩
    · exact hdrift _ _ ih hlast
    · exact hstep m _ r _ houtside ih (h.spec hrun)

/-! ### Running a machine -/

/-- The run of a program whose messages are answered by a function. -/
def Program.runWith (answer : μ → σ → Except ρ ρ × σ) : Program σ μ ρ α → σ → Except ρ (α × σ)
  | .pure a, s => .ok (a, s)
  | .revert error, _ => .error error
  | .get next, s => (next s).runWith answer s
  | .put s next, _ => next.runWith answer s
  | .call m next, s => (next (answer m s).1).runWith answer (answer m s).2

theorem Program.runWith_read_bind {answer : μ → σ → Except ρ ρ × σ} {f : σ → Program σ μ ρ α}
    {s : σ} : (Program.read >>= f).runWith answer s = (f s).runWith answer s := rfl

/-- The run of a message when unknown code sends the messages of a script and outputs nothing.
Without fuel a message fails. -/
def Machine.interpret (M : Machine σ μ ρ) (script : μ → List μ) (nothing : ρ) :
    ℕ → μ → σ → Except ρ ρ × σ
  | 0, _, s => (.error nothing, s)
  | fuel + 1, m, s =>
    match M.enter m s with
    | none => (.error nothing, s)
    | some s₁ =>
      match M.code m with
      | none =>
        (.ok nothing, (script m).foldl (fun s m' => (M.interpret script nothing fuel m' s).2) s₁)
      | some p =>
        match p.runWith (M.interpret script nothing fuel) s₁ with
        | .error error => (.error error, s)
        | .ok (output, s₂) => (.ok output, s₂)

theorem Machine.interpret_of_runWith {script : μ → List μ} {nothing output : ρ} {fuel : ℕ} {m : μ}
    {s₁ s₂ : σ} {p : Program σ μ ρ ρ} (henter : M.enter m s = some s₁) (hcode : M.code m = some p)
    (hrun : p.runWith (M.interpret script nothing fuel) s₁ = .ok (output, s₂)) :
    M.interpret script nothing (fuel + 1) m s = (.ok output, s₂) := by
  rw [Machine.interpret, henter]
  simp only [hcode, hrun]

theorem Runs.of_runWith {p : Program σ μ ρ ρ} {answer : μ → σ → Except ρ ρ × σ} {output : ρ}
    (hanswer : ∀ m s, Runs M (.message m) s (answer m s).1 (answer m s).2)
    (h : p.runWith answer s = .ok (output, s')) : Runs M (.program p) s (.ok output) s' := by
  induction p generalizing s with
  | pure a =>
    cases h
    exact .pure
  | revert error => cases h
  | get next ih => exact .get (ih s h)
  | put s₁ next ih => exact .put (ih h)
  | call m next ih => exact .call (hanswer m s) (ih _ h)

theorem Runs.of_script {m : μ} {ms : List μ} {answer : μ → σ → Except ρ ρ × σ} {output : ρ}
    (hanswer : ∀ m s, Runs M (.message m) s (answer m s).1 (answer m s).2)
    (hsends : ∀ m' ∈ ms, M.maySend m m') :
    Runs M (.unknown m) s (.ok output) (ms.foldl (fun s m' => (answer m' s).2) s) := by
  induction ms generalizing s with
  | nil => exact .stop
  | cons m' ms ih =>
    exact .send (hsends m' List.mem_cons_self) (hanswer m' s)
      (ih fun m'' hm => hsends m'' (List.mem_cons_of_mem _ hm))

/-- What the interpreter does is a run of the machine. -/
theorem Runs.interpret {script : μ → List μ} {nothing : ρ}
    (hscript : ∀ m, ∀ m' ∈ script m, M.maySend m m') (fuel : ℕ) (m : μ) (s : σ) :
    Runs M (.message m) s (M.interpret script nothing fuel m s).1
      (M.interpret script nothing fuel m s).2 := by
  induction fuel generalizing m s with
  | zero => exact .failed
  | succ fuel ih =>
    rw [Machine.interpret]
    split
    · exact .failed
    · next s₁ henter =>
      split
      · next hcode => exact .other henter hcode (.of_script ih (hscript m))
      · next p hcode =>
        split
        · exact .failed
        · next output s₂ hrun => exact .known henter hcode (.of_runWith ih hrun)

end EtherTrade.ReentrantCalls
