import EtherTrade.OrdersTransactionSteps

/-!
# Columns that no update changes

Updates of an order set what is filled, what remains and the status. What is computed from
the other columns alone stays as it was inserted, whichever transaction writes the row.
-/

namespace EtherTrade.OrderColumns

open KeyedRows AccountsSchema OrdersSchema MatchingEngine OrdersTransactions
open OrdersTransactionInvariants OrdersTransactionSteps

universe u

variable {β : Type u} {f : Order → β} {db : OrdersDb} {p : ℕ} {s s' : Shared}
  {w w' : UnitOfWork} {l l' : Process} {action : Action} {orderId : Uuid}

/-- An update leaves `f` as it is. -/
def Fixed (f : Order → β) : Prop :=
  ∀ order filledAmount remainingAmount status,
    f (UnitOfWork.executed order filledAmount remainingAmount status) = f order

theorem Fixed.cancelled (hf : Fixed f) (order : Order) :
    f { order with status := .cancelled } = f order :=
  hf order order.filledAmount order.remainingAmount .cancelled

/-- The rows of a transaction agree with the rows they are versions of. -/
def RowsKeep (f : Order → β) (db : OrdersDb) (w : UnitOfWork) : Prop :=
  ∀ orderId row, lookup Order.id w.rows orderId = some row →
    if orderId = w.takerOrder.id then f row = f w.takerOrder
    else (db.findById orderId).map f = some (f row)

theorem rowsKeep_start (order : Order) : RowsKeep f db (.start order) := by
  intro orderId row hrow
  obtain ⟨hmem, rfl⟩ := lookup_mem hrow
  obtain rfl := List.mem_singleton.mp hmem
  rw [UnitOfWork.start, if_pos rfl]

/-- An update agrees with the row it finds. -/
theorem rowsKeep_write (hf : Fixed f) {filledAmount remainingAmount : ℤ} {status : OrderStatus}
    (h : RowsKeep f db w) (htaker : w'.takerOrder = w.takerOrder) (hrows : w'.rows = (w.write
      (w.updateExecution db orderId filledAmount remainingAmount status)).rows)
    (hfresh : db.findById w.takerOrder.id = none) : RowsKeep f db w' := by
  intro k row hrow
  rw [hrows, lookup_write_updateExecution] at hrow
  rw [htaker]
  split at hrow
  · next hk =>
    subst hk
    obtain ⟨base, hbase, rfl⟩ := Option.map_eq_some_iff.mp hrow
    rw [UnitOfWork.findById, Option.or_eq_some_iff] at hbase
    rw [hf]
    rcases hbase with hbase | ⟨-, hbase⟩
    · exact h k base hbase
    · have hne : k ≠ w.takerOrder.id := by
        rintro rfl
        rw [hfresh] at hbase
        cases hbase
      rw [if_neg hne, hbase]
      rfl
  · exact h k row hrow

/-- A commit adds the order of the transaction and leaves the others. -/
theorem findById_commit {events : List OutboxEvent} (h : RowsKeep f s.store.db w)
    (hown : (lookup Order.id w.rows w.takerOrder.id).isSome) (k : Uuid) :
    ((commit p s w.rows events).store.db.findById k).map f =
      if k = w.takerOrder.id then some (f w.takerOrder) else (s.store.db.findById k).map f := by
  simp only [commit, findById_install]
  cases hrow : lookup Order.id w.rows k with
  | none =>
    have hne : k ≠ w.takerOrder.id := by
      rintro rfl
      simp [hrow] at hown
    simp [hne]
  | some row =>
    have hkept := h k row hrow
    split at hkept
    · next hk => simp [hk, hkept]
    · next hk => simpa [hk] using hkept.symm

theorem findById_cancel (hf : Fixed f) {request : CancelOrderRequest} {order : Order}
    (horder : cancellableOrder s.store.db request = some order) {events : List OutboxEvent}
    (k : Uuid) :
    ((commit p s [{ order with status := .cancelled }] events).store.db.findById k).map f =
      (s.store.db.findById k).map f := by
  obtain ⟨hfind, hid, -⟩ := cancellableOrder_eq_some horder
  simp only [commit, findById_install]
  by_cases hk : order.id = k
  · subst hk
    rw [← hid] at hfind
    simp [lookup, hfind, hf.cancelled]
  · simp [lookup, hk]

/-- A step of a call leaves `f` of every committed order, or commits the order of its
transaction. -/
theorem findById_step (hf : Fixed f)
    (hplacing : ∀ request recordId w point,
      l = .creating request (.placing recordId (.active w point)) →
        RowsKeep f s.store.db w ∧ (lookup Order.id w.rows w.takerOrder.id).isSome)
    (hcancelling : ∀ request updated event, l = .cancelling request (.committing updated event) →
      ∃ order, cancellableOrder s.store.db request = some order ∧
        updated = { order with status := .cancelled })
    (h : ProcessStep p s l action s' l') :
    (∀ k, (s'.store.db.findById k).map f = (s.store.db.findById k).map f) ∨
      ∃ request recordId w, l = .creating request (.placing recordId (.active w .committing)) ∧
        ∀ k, (s'.store.db.findById k).map f =
          if k = w.takerOrder.id then some (f w.takerOrder)
          else (s.store.db.findById k).map f := by
  have hsame (horders : s'.store.db.orders = s.store.db.orders) (k : Uuid) :
      (s'.store.db.findById k).map f = (s.store.db.findById k).map f := by
    rw [OrdersDb.findById, horders]
    rfl
  cases h with
  | quiet horders => exact Or.inl (hsame horders)
  | started => exact Or.inl (hsame rfl)
  | held => exact Or.inl (hsame rfl)
  | recorded => exact Or.inl (hsame rfl)
  | cancelled =>
    obtain ⟨order, horder, rfl⟩ := hcancelling _ _ _ rfl
    exact Or.inl (findById_cancel hf horder)
  | placed hstep =>
    cases hstep with
    | quiet hdb => exact Or.inl (hsame (congrArg OrdersDb.orders hdb))
    | matched => exact Or.inl (hsame rfl)
    | unmatched => exact Or.inl (hsame rfl)
    | finished => exact Or.inl (hsame rfl)
    | aborted => exact Or.inl (hsame rfl)
    | committed =>
      obtain ⟨hrows, hown⟩ := hplacing _ _ _ _ rfl
      exact Or.inr ⟨_, _, _, rfl, findById_commit hrows hown⟩

end EtherTrade.OrderColumns
