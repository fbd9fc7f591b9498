import Mathlib.Data.List.Basic

/-!
# Computations that call their surroundings

A computation with the calls it has made, in order, and its answer or the error it ended
with. What a call answers is up to the surroundings; an error ends the computation unless
it is caught, and the calls made before it stay made.
-/

namespace EtherTrade.RecordedCalls

universe u

/-- A call and whether it succeeded. -/
structure Entry (κ : Type u) where
  call : κ
  succeeded : Bool
  deriving DecidableEq, Repr

structure Recorded (κ ε α : Type u) where
  calls : List (Entry κ)
  answer : Except ε α

namespace Recorded

variable {κ ε α β : Type u}

/-- A computation that makes no call. -/
def answering (answer : Except ε α) : Recorded κ ε α := ⟨[], answer⟩

/-- One call. -/
def call (k : κ) (answer : Except ε α) : Recorded κ ε α := ⟨[⟨k, answer.toBool⟩], answer⟩

def andThen (m : Recorded κ ε α) (f : α → Recorded κ ε β) : Recorded κ ε β :=
  match m.answer with
  | .ok a => ⟨m.calls ++ (f a).calls, (f a).answer⟩
  | .error error => ⟨m.calls, .error error⟩

def orElse (m : Recorded κ ε α) (handle : ε → Recorded κ ε α) : Recorded κ ε α :=
  match m.answer with
  | .ok _ => m
  | .error error => ⟨m.calls ++ (handle error).calls, (handle error).answer⟩

instance : Monad (Recorded κ ε) where
  pure a := answering (.ok a)
  bind := andThen

instance : MonadExceptOf ε (Recorded κ ε) where
  throw error := answering (.error error)
  tryCatch := orElse

variable {m : Recorded κ ε α} {f : α → Recorded κ ε β} {handle : ε → Recorded κ ε α} {a : α}
  {error : ε} {k : κ} {answer : Except ε α}

@[simp] theorem calls_pure : (pure a : Recorded κ ε α).calls = [] := rfl

@[simp] theorem answer_pure : (pure a : Recorded κ ε α).answer = .ok a := rfl

@[simp] theorem calls_throw : (throw error : Recorded κ ε α).calls = [] := rfl

@[simp] theorem answer_throw : (throw error : Recorded κ ε α).answer = .error error := rfl

@[simp] theorem calls_call : (call k answer).calls = [⟨k, answer.toBool⟩] := rfl

@[simp] theorem answer_call : (call k answer).answer = answer := rfl

@[simp] theorem call_ok_bind :
    call k (.ok a) >>= f = ⟨⟨k, true⟩ :: (f a).calls, (f a).answer⟩ := rfl

@[simp] theorem call_error_bind :
    (call k (.error error) : Recorded κ ε α) >>= f = ⟨[⟨k, false⟩], .error error⟩ := rfl

theorem tryCatch_of_ok (h : m.answer = .ok a) : tryCatch m handle = m := by
  change orElse m handle = _
  rw [orElse, h]

theorem tryCatch_of_error (h : m.answer = .error error) :
    tryCatch m handle = ⟨m.calls ++ (handle error).calls, (handle error).answer⟩ := by
  change orElse m handle = _
  rw [orElse, h]

/-- The second of two computations runs only after an answer of the first. -/
theorem calls_bind (m : Recorded κ ε α) (f : α → Recorded κ ε β) :
    (∃ a, m.answer = .ok a ∧ m >>= f = ⟨m.calls ++ (f a).calls, (f a).answer⟩) ∨
      ∃ error, m.answer = .error error ∧ m >>= f = ⟨m.calls, .error error⟩ := by
  change (∃ a, _ ∧ andThen m f = _) ∨ ∃ error, _ ∧ andThen m f = _
  rcases h : m.answer with error | a
  · exact .inr ⟨error, rfl, by rw [andThen, h]⟩
  · exact .inl ⟨a, rfl, by rw [andThen, h]⟩

end Recorded

end EtherTrade.RecordedCalls
