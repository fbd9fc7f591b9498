import Mathlib.Control.Monad.Basic

/-!
# Statements that may throw, and transactions around them

Statements change a database and may throw. What they have written before they throw stays, so
a handler that catches the exception goes on with it; a transaction whose body throws leaves the
database as it was, and throws the same.
-/

namespace EtherTrade.DatabaseTransactions

universe u

variable {σ ε α β : Type u} {db db' : σ} {e : ε} {a : α}

abbrev Statements (σ ε : Type u) := ExceptT ε (StateM σ)

/-- What the statements end with, and the database that they leave. -/
def exec (body : Statements σ ε α) (db : σ) : Except ε α × σ := (ExceptT.run body).run db

/-- All writes of the body, or none if it throws. -/
def transaction (body : Statements σ ε α) : Statements σ ε α :=
  ExceptT.mk fun db =>
    match exec body db with
    | (.ok a, db') => (.ok a, db')
    | (.error e, _) => (.error e, db)

@[simp] theorem exec_pure : exec (pure a : Statements σ ε α) db = (.ok a, db) := rfl

@[simp] theorem exec_throw : exec (throw e : Statements σ ε α) db = (.error e, db) := rfl

@[simp] theorem exec_modify {f : σ → σ} :
    exec (modify f : Statements σ ε PUnit) db = (.ok ⟨⟩, f db) := rfl

@[simp] theorem exec_ofExcept (result : Except ε α) :
    exec (MonadExcept.ofExcept result : Statements σ ε α) db = (result, db) := by
  cases result <;> rfl

theorem exec_bind (body : Statements σ ε α) (next : α → Statements σ ε β) (db : σ) :
    exec (body >>= next) db =
      match exec body db with
      | (.ok a, db') => exec (next a) db'
      | (.error e, db') => (.error e, db') := by
  change StateT.run (ExceptT.run body >>= ExceptT.bindCont next) db = _
  rw [StateT.run_bind]
  change _ = match StateT.run (ExceptT.run body) db with
    | (.ok a, db') => exec (next a) db'
    | (.error e, db') => (.error e, db')
  rcases StateT.run (ExceptT.run body) db with ⟨a | e, db'⟩ <;> rfl

theorem exec_tryCatch (body : Statements σ ε α) (handler : ε → Statements σ ε α) (db : σ) :
    exec (tryCatch body handler) db =
      match exec body db with
      | (.ok a, db') => (.ok a, db')
      | (.error e, db') => exec (handler e) db' := by
  change StateT.run (ExceptT.run body >>= fun result : Except ε α =>
    (match result with
    | .ok a => pure (Except.ok a)
    | .error e => ExceptT.run (handler e) : StateM σ (Except ε α))) db = _
  rw [StateT.run_bind]
  change _ = (match StateT.run (ExceptT.run body) db with
    | (.ok a, db') => (.ok a, db')
    | (.error e, db') => exec (handler e) db' : Except ε α × σ)
  rcases StateT.run (ExceptT.run body) db with ⟨a | e, db'⟩ <;> rfl

theorem exec_transaction (body : Statements σ ε α) (db : σ) :
    exec (transaction body) db =
      match exec body db with
      | (.ok a, db') => (.ok a, db')
      | (.error e, _) => (.error e, db) := rfl

/-! ### Rules -/

/-- Whatever the body has written, it is gone if the body throws. -/
theorem transaction_error {body : Statements σ ε α} (h : exec body db = (.error e, db')) :
    exec (transaction body) db = (.error e, db) := by
  rw [exec_transaction, h]

theorem transaction_ok {body : Statements σ ε α} (h : exec body db = (.ok a, db')) :
    exec (transaction body) db = (.ok a, db') := by
  rw [exec_transaction, h]

/-- A handler that does its work and throws the exception again ends with the exception. -/
theorem rethrow_error {body : Statements σ ε α} {handler : ε → Statements σ ε PUnit} {written : σ}
    (h : exec body db = (.error e, db')) (hhandler : exec (handler e) db' = (.ok ⟨⟩, written)) :
    exec (tryCatch body fun e => do handler e; throw e) db = (.error e, written) := by
  rw [exec_tryCatch, h]
  change exec (handler e >>= fun _ => throw e) db' = _
  rw [exec_bind, hhandler]
  exact exec_throw

/-- A loop over statements that do not throw makes their changes one after the other. -/
theorem exec_forM {γ : Type u} {body : γ → Statements σ ε PUnit} {change : γ → σ → σ}
    (h : ∀ x db, exec (body x) db = (.ok ⟨⟩, change x db)) (xs : List γ) (db : σ) :
    exec (forM xs body) db = (.ok ⟨⟩, xs.foldl (fun db x => change x db) db) := by
  induction xs generalizing db with
  | nil => exact exec_pure
  | cons x xs ih =>
    rw [List.forM_cons, exec_bind, h]
    exact ih _

end EtherTrade.DatabaseTransactions
