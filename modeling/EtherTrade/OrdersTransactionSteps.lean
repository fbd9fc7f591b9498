import EtherTrade.OrdersTransactionInvariants

/-!
# The steps of the orders system

Each step of a unit of work leaves its reads and writes alone, makes one match, updates
the taker, or ends the transaction. From these, each step of a call leaves the committed
orders and events alone or commits what its transaction wrote.
-/

namespace EtherTrade.OrdersTransactionSteps

open KeyedRows AccountsSchema OrdersSchema OrderBook MatchingEngine
open InterleavedProcesses ResourceLocks OrdersTransactions OrdersTransactionInvariants

variable {db : OrdersDb} {p q : ℕ} {s s' : Shared} {w : UnitOfWork} {maker : OrderbookEntry}
  {point point' : Point} {placing : Placing} {l l' : Process} {action : Action}

/-- Whether the taker has had its last update. -/
def finished : Point → Bool
  | .adding => true
  | .detailing => true
  | .numbering _ => true
  | .committing => true
  | _ => false

/-- What one step of a unit of work does. -/
inductive ActiveStep (p : ℕ) (s : Shared) (w : UnitOfWork) :
    Point → Action → Shared → Placing → Prop
  | quiet {point point' : Point} {action : Action} {store : OrdersStore}
      {opposingOrders : List OrderbookEntry} {outboxList : List OutboxEvent}
      (hdb : store.db = s.store.db) (hfinished : finished point' = finished point)
      (hbooked : Booked w point → Booked { w with opposingOrders, outboxList } point') :
      ActiveStep p s w point action ⟨store, s.locks⟩
        (.active { w with opposingOrders, outboxList } point')
  | matched {maker : OrderbookEntry} {makerFilled : ℤ} {tradeId : Uuid} {point' : Point}
      (havailable : s.locks.Available p maker.orderId)
      (hrow : (w.findById s.store.db maker.orderId).isSome)
      (hfinished : finished point' = false)
      (hpending : ∀ u, pending u point' = u.trades) :
      ActiveStep p s w (.updating maker makerFilled) (.trade tradeId)
        (takeLock p s maker.orderId)
        (.active (w.fill s.store.db maker makerFilled tradeId) point')
  | unmatched {maker : OrderbookEntry} {makerFilled : ℤ} {tradeId : Uuid} {placing : Placing}
      (hrow : w.findById s.store.db maker.orderId = none) :
      ActiveStep p s w (.updating maker makerFilled) (.trade tradeId) s placing
  | finished {point' : Point} (hfinished : finished point' = true)
      (hpending : pending (w.finish s.store.db) point' = w.trades) :
      ActiveStep p s w .updatingTaker .statement s (.active (w.finish s.store.db) point')
  | committed {action : Action} {placing : Placing} (hended : ∀ u at', placing ≠ .active u at') :
      ActiveStep p s w .committing action (commit p s w.rows w.outboxList) placing
  | aborted {point : Point} : ActiveStep p s w point .abort (rollback p s) .rolledBack

/-- A failure at any point rolls the transaction back. -/
theorem activeStep_abort (h : activeStep p s w point .abort = some (s', placing)) :
    s' = rollback p s ∧ placing = .rolledBack := by
  have habort : (s', placing) = (rollback p s, .rolledBack) := by
    cases point <;> first
      | exact (Option.some.inj h).symm
      | (rename_i ids; cases ids <;> exact (Option.some.inj h).symm)
  exact Prod.mk.inj habort

theorem activeStep_cases (h : activeStep p s w point action = some (s', placing)) :
    ActiveStep p s w point action s' placing := by
  cases action with
  | abort =>
    obtain ⟨rfl, rfl⟩ := activeStep_abort h
    exact .aborted
  | commitUnacknowledged =>
    cases point with
    | committing =>
      obtain ⟨rfl, rfl⟩ := Prod.mk.inj (Option.some.inj h)
      exact .committed (by simp)
    | reading ids => cases ids <;> cases h
    | numbering rest => cases rest <;> cases h
    | _ => cases h
  | trade tradeId =>
    cases point with
    | updating maker makerFilled =>
      have hfinished : finished (if w.makerStatus maker = .filled then .removing maker
          else .caching maker (w.newMakerRemaining maker)) = false := by
        split <;> rfl
      have hpending : ∀ u, pending u (if w.makerStatus maker = .filled then .removing maker
          else .caching maker (w.newMakerRemaining maker)) = u.trades := by
        intro u
        split <;> rfl
      simp only [activeStep] at h
      split at h
      · next hrow =>
        obtain ⟨rfl, rfl⟩ := Prod.mk.inj (Option.some.inj h)
        exact .unmatched (Option.isNone_iff_eq_none.mp hrow)
      · next hrow =>
        split at h
        · next havailable =>
          obtain ⟨rfl, rfl⟩ := Prod.mk.inj (Option.some.inj h)
          exact .matched havailable (Option.isSome_iff_ne_none.mpr fun hnone => hrow (by simp [hnone]))
            hfinished hpending
        · cases h
    | reading ids => cases ids <;> cases h
    | numbering rest => cases rest <;> cases h
    | _ => cases h
  | statement =>
    cases point with
    | reading ids =>
      cases ids <;> obtain ⟨rfl, rfl⟩ := Prod.mk.inj (Option.some.inj h) <;>
        exact .quiet rfl rfl id
    | visiting =>
      simp only [activeStep] at h
      split at h <;> obtain ⟨rfl, rfl⟩ := Prod.mk.inj (Option.some.inj h) <;>
        exact .quiet rfl rfl id
    | totalling sequenceId =>
      obtain ⟨rfl, rfl⟩ := Prod.mk.inj (Option.some.inj h)
      refine .quiet rfl rfl fun hbooked => ?_
      rw [Booked, List.filterMap_append, List.filterMap_cons_none rfl, List.filterMap_nil,
        List.append_nil]
      exact hbooked
    | updatingTaker =>
      obtain ⟨rfl, rfl⟩ := Prod.mk.inj (Option.some.inj h)
      refine .finished ?_ ?_
      · split <;> rfl
      · split <;> rfl
    | adding =>
      obtain ⟨rfl, rfl⟩ := Prod.mk.inj (Option.some.inj h)
      exact .quiet rfl rfl id
    | detailing =>
      obtain ⟨rfl, rfl⟩ := Prod.mk.inj (Option.some.inj h)
      exact .quiet rfl rfl id
    | numbering rest =>
      cases rest with
      | nil =>
        obtain ⟨rfl, rfl⟩ := Prod.mk.inj (Option.some.inj h)
        refine .quiet rfl rfl fun hbooked => ?_
        rw [Booked, List.filterMap_append, trade_orderFilledEvents]
        simpa [Booked, pending] using hbooked
      | cons trade rest =>
        obtain ⟨rfl, rfl⟩ := Prod.mk.inj (Option.some.inj h)
        refine .quiet rfl rfl fun hbooked => ?_
        rw [Booked, List.filterMap_append]
        simpa [Booked, tradeExecutedEvent, OutboxEvent.trade, pending, reported, unnumbered,
          tradeExecutedPayload] using hbooked
    | committing =>
      obtain ⟨rfl, rfl⟩ := Prod.mk.inj (Option.some.inj h)
      exact .committed (by simp)
    | updating maker makerFilled => cases h
    | _ =>
      obtain ⟨rfl, rfl⟩ := Prod.mk.inj (Option.some.inj h)
      exact .quiet rfl rfl id
  | _ =>
    cases point with
    | reading ids => cases ids <;> cases h
    | numbering rest => cases rest <;> cases h
    | _ => cases h

/-- The process has written nothing that waits for a commit. -/
def Inert : Process → Prop
  | .creating _ (.placing _ (.active _ _)) => False
  | .cancelling _ (.recording _ _ _) => False
  | .cancelling _ (.committing _ _) => False
  | _ => True

/-- What one step of a process does. -/
inductive ProcessStep (p : ℕ) (s : Shared) : Process → Action → Shared → Process → Prop
  | quiet {l l' : Process} {action : Action} {s' : Shared}
      (horders : s'.store.db.orders = s.store.db.orders)
      (hevents : s'.store.db.outboxEvents = s.store.db.outboxEvents)
      (hlocks : s'.locks = s.locks ∨ s'.locks = s.locks.release p) (hinert : Inert l') :
      ProcessStep p s l action s' l'
  | started {request : ValidRequest} {recordId newId : Uuid} {order : Order}
      (horder : newOrder request.val newId = some order) (havailable : s.locks.Available p order.id)
      (hfresh : s.store.db.findById order.id = none) :
      ProcessStep p s (.creating request (.placing recordId .inserting)) (.insert newId)
        (takeLock p s order.id)
        (.creating request (.placing recordId (.active (.start order) .sequencing)))
  | placed {request : ValidRequest} {recordId : Uuid} {w : UnitOfWork} {point : Point}
      {action : Action} {s' : Shared} {placing : Placing}
      (hstep : ActiveStep p s w point action s' placing) :
      ProcessStep p s (.creating request (.placing recordId (.active w point))) action s'
        (.creating request (.placing recordId placing))
  | held {request : CancelOrderRequest} {order : Order} {levelTotalQuantity : ℤ} {sequenceId : ℕ}
      (horder : cancellableOrder s.store.db request = some order)
      (havailable : s.locks.Available p request.orderId) :
      ProcessStep p s (.cancelling request (.updating levelTotalQuantity sequenceId)) .statement
        (takeLock p s request.orderId)
        (.cancelling request
          (.recording { order with status := .cancelled } levelTotalQuantity sequenceId))
  | recorded {request : CancelOrderRequest} {updated : Order} {levelTotalQuantity : ℤ}
      {sequenceId : ℕ} :
      ProcessStep p s (.cancelling request (.recording updated levelTotalQuantity sequenceId))
        .statement s
        (.cancelling request (.committing updated
          (orderCancelledEvent updated levelTotalQuantity sequenceId)))
  | cancelled {request : CancelOrderRequest} {updated : Order} {event : OutboxEvent}
      {action : Action} {l' : Process} (hinert : Inert l') :
      ProcessStep p s (.cancelling request (.committing updated event)) action
        (commit p s [updated] [event]) l'

theorem newOrder_id {request : CreateOrderRequest} {newId : Uuid} {order : Order}
    (h : newOrder request newId = some order) : order.id = newId := by
  simp only [newOrder, Option.bind_eq_bind, Option.bind_eq_some_iff, Option.pure_def,
    Option.some.injEq] at h
  obtain ⟨price, -, amount, -, rfl⟩ := h
  rfl

/-- A step that changes neither orders nor events nor locks. -/
private theorem ProcessStep.same {l' : Process} (hinert : Inert l') :
    ProcessStep p s l action s l' := .quiet rfl rfl (Or.inl rfl) hinert

private theorem placingStep_cases {request : ValidRequest} {recordId : Uuid}
    {placing' : Placing} (h : placingStep p s request.val placing action = some (s', placing')) :
    ProcessStep p s (.creating request (.placing recordId placing)) action s'
      (.creating request (.placing recordId placing')) := by
  cases placing with
  | inserting =>
    cases action with
    | insert newId =>
      simp only [placingStep] at h
      split at h
      · obtain ⟨rfl, rfl⟩ := Prod.mk.inj (Option.some.inj h)
        exact .quiet rfl rfl (Or.inr rfl) trivial
      · next order horder =>
        obtain rfl := newOrder_id horder
        split at h
        · next havailable =>
          split at h <;> obtain ⟨rfl, rfl⟩ := Prod.mk.inj (Option.some.inj h)
          · exact .quiet rfl rfl (Or.inr rfl) trivial
          · next hfresh => exact .started horder havailable (by simpa using hfresh)
        · cases h
    | abort =>
      obtain ⟨rfl, rfl⟩ := Prod.mk.inj (Option.some.inj h)
      exact .quiet rfl rfl (Or.inr rfl) trivial
    | _ => cases h
  | active w point => exact .placed (activeStep_cases h)
  | _ => cases action <;> cases h

private theorem inert_resolveRecord {request : ValidRequest} {record : IdempotencyRecord} :
    Inert (.creating request (resolveRecord request.val record)) := by
  unfold resolveRecord
  split
  · trivial
  · trivial
  · split <;> trivial

private theorem creatingStep_cases {request : ValidRequest} {progress progress' : Creating}
    (h : creatingStep p s request.val progress action = some (s', progress')) :
    ProcessStep p s (.creating request progress) action s' (.creating request progress') := by
  cases progress with
  | placing recordId placing =>
    have hplacing (h : (placingStep p s request.val placing action).map
        (fun r => (r.1, Creating.placing recordId r.2)) = some (s', progress')) :
        ProcessStep p s (.creating request (.placing recordId placing)) action s'
          (.creating request progress') := by
      obtain ⟨⟨s₁, placing'⟩, hstep, heq⟩ := Option.map_eq_some_iff.mp h
      obtain ⟨rfl, rfl⟩ := Prod.mk.inj heq
      exact placingStep_cases hstep
    cases placing with
    | committed order =>
      cases action with
      | statement =>
        obtain ⟨rfl, rfl⟩ := Prod.mk.inj (Option.some.inj h)
        exact .quiet rfl rfl (Or.inl rfl) trivial
      | abort =>
        obtain ⟨rfl, rfl⟩ := Prod.mk.inj (Option.some.inj h)
        exact .same trivial
      | _ => exact hplacing h
    | rolledBack =>
      cases action with
      | statement =>
        obtain ⟨rfl, rfl⟩ := Prod.mk.inj (Option.some.inj h)
        exact .quiet rfl rfl (Or.inl rfl) trivial
      | _ => exact hplacing h
    | _ => exact hplacing h
  | checking =>
    cases action with
    | statement =>
      simp only [creatingStep] at h
      split at h <;> obtain ⟨rfl, rfl⟩ := Prod.mk.inj (Option.some.inj h)
      · exact .same trivial
      · exact .same inert_resolveRecord
    | abort =>
      obtain ⟨rfl, rfl⟩ := Prod.mk.inj (Option.some.inj h)
      exact .same trivial
    | _ => cases h
  | recording =>
    cases action with
    | insert recordId =>
      simp only [creatingStep] at h
      split at h <;> obtain ⟨rfl, rfl⟩ := Prod.mk.inj (Option.some.inj h)
      · exact .same trivial
      · exact .quiet rfl rfl (Or.inl rfl) trivial
    | abort =>
      obtain ⟨rfl, rfl⟩ := Prod.mk.inj (Option.some.inj h)
      exact .same trivial
    | _ => cases h
  | awaitingLock recordId =>
    cases action with
    | reply reply =>
      cases reply <;> obtain ⟨rfl, rfl⟩ := Prod.mk.inj (Option.some.inj h) <;> exact .same trivial
    | _ => cases h
  | awaitingUnlock recordId =>
    cases action with
    | reply reply =>
      obtain ⟨rfl, rfl⟩ := Prod.mk.inj (Option.some.inj h)
      exact .same trivial
    | _ => cases h
  | _ => cases action <;> cases h <;> exact .quiet rfl rfl (Or.inl rfl) trivial

private theorem cancellingStep_cases {request : CancelOrderRequest}
    {progress progress' : Cancelling}
    (h : cancellingStep p s request progress action = some (s', progress')) :
    ProcessStep p s (.cancelling request progress) action s' (.cancelling request progress') := by
  have habort (h : some (rollback p s, Cancelling.thrown .infrastructure) = some (s', progress')) :
      ProcessStep p s (.cancelling request progress) action s' (.cancelling request progress') := by
    cases h
    exact .quiet rfl rfl (Or.inr rfl) trivial
  cases progress with
  | finding =>
    cases action with
    | statement =>
      simp only [cancellingStep] at h
      split at h
      · cases h
        exact .same trivial
      · split at h
        · cases h
          exact .same trivial
        · split at h <;> cases h <;> exact .same trivial
    | abort => exact habort h
    | _ => cases h
  | updating levelTotalQuantity sequenceId =>
    cases action with
    | statement =>
      simp only [cancellingStep] at h
      split at h
      · cases h
        exact .quiet rfl rfl (Or.inr rfl) trivial
      · next order horder =>
        split at h
        · next havailable =>
          cases h
          exact .held horder havailable
        · cases h
    | abort => exact habort h
    | _ => cases h
  | recording updated levelTotalQuantity sequenceId =>
    cases action with
    | statement =>
      cases h
      exact .recorded
    | abort => exact habort h
    | _ => cases h
  | committing updated event =>
    cases action with
    | statement =>
      cases h
      exact .cancelled trivial
    | commitUnacknowledged =>
      cases h
      exact .cancelled trivial
    | abort => exact habort h
    | _ => cases h
  | unlocking cancelledOrder =>
    cases action with
    | statement =>
      simp only [cancellingStep] at h
      split at h <;> cases h <;> exact .quiet rfl rfl (Or.inl rfl) trivial
    | _ => cases h
  | _ =>
    cases action with
    | abort => first | exact habort h | cases h
    | _ => cases h <;> exact .quiet rfl rfl (Or.inl rfl) trivial

theorem step_cases (h : step p s l action = some (s', l')) : ProcessStep p s l action s' l' := by
  cases l with
  | idle =>
    cases action with
    | createOrder request =>
      simp only [step] at h
      split at h <;> cases h <;> exact .same trivial
    | cancelOrder request =>
      cases h
      exact .same trivial
    | passTime ms =>
      cases h
      exact .quiet rfl rfl (Or.inl rfl) trivial
    | _ => cases h
  | refused exception => cases h
  | creating request progress =>
    simp only [step, Option.map_eq_some_iff, Prod.mk.injEq] at h
    obtain ⟨⟨s₁, progress'⟩, hstep, rfl, rfl⟩ := h
    exact creatingStep_cases hstep
  | cancelling request progress =>
    simp only [step, Option.map_eq_some_iff, Prod.mk.injEq] at h
    obtain ⟨⟨s₁, progress'⟩, hstep, rfl, rfl⟩ := h
    exact cancellingStep_cases hstep

/-! ### What a step leaves to others -/

theorem keeps_commit {rows : List Order} {events : List OutboxEvent} (hpq : p ≠ q)
    (hlocked : ∀ orderId, (lookup Order.id rows orderId).isSome → s.locks orderId = some p) :
    Keeps view q s (commit p s rows events) := by
  refine (keeps_of_available hpq fun orderId hview => Or.inr (hlocked orderId ?_)).trans
    (keeps_release hpq)
  cases hrow : lookup Order.id rows orderId with
  | some row => rfl
  | none =>
    refine absurd ?_ hview
    simp [view, findById_install, hrow]

theorem keeps_of_orders (horders : s'.store.db.orders = s.store.db.orders)
    (hlocks : s'.locks = s.locks ∨ s'.locks = s.locks.release p) (hpq : p ≠ q) :
    Keeps view q s s' := by
  intro orderId hlock
  refine ⟨?_, by simp only [view, OrdersDb.findById, horders]⟩
  rcases hlocks with hlocks | hlocks
  · rwa [hlocks]
  · rw [hlocks]
    exact LockTable.release_other hpq hlock

theorem lookup_singleton_isSome {row : Order} {orderId : Uuid}
    (h : (lookup Order.id [row] orderId).isSome) : orderId = row.id := by
  obtain ⟨x, hx⟩ := Option.isSome_iff_exists.mp h
  obtain ⟨hmem, rfl⟩ := lookup_mem hx
  rw [List.mem_singleton.mp hmem]

theorem cancellableOrder_eq_some {request : CancelOrderRequest} {order : Order}
    (h : cancellableOrder db request = some order) :
    db.findById request.orderId = some order ∧ order.id = request.orderId ∧
      order.status ∈ OrderStatus.cancellable := by
  simp only [cancellableOrder, OrdersDb.findByIdAndUserId, Option.filter_eq_some_iff,
    decide_eq_true_eq] at h
  obtain ⟨⟨hfind, -⟩, hstatus⟩ := h
  exact ⟨hfind, (lookup_mem hfind).2, hstatus⟩

/-- The rows that a commit of the process would install are its own to change. -/
def CommitsLocked (p : ℕ) (s : Shared) : Process → Prop
  | .creating _ (.placing _ (.active w _)) =>
    ∀ orderId, (lookup Order.id w.rows orderId).isSome → s.locks orderId = some p
  | .cancelling _ (.committing updated _) => s.locks updated.id = some p
  | _ => True

theorem locks_cancelled {request : CancelOrderRequest} {updated : Order}
    (h : Cancels p s request updated) : s.locks updated.id = some p := by
  obtain ⟨hlocked, order, horder, rfl⟩ := h
  rw [← hlocked]
  exact congrArg _ (cancellableOrder_eq_some horder).2.1

theorem commitsLocked_of_invariant (h : ProcessInvariant p s l) : CommitsLocked p s l := by
  unfold CommitsLocked
  split
  · exact h.1.locked
  · exact locks_cancelled h.1
  · trivial

theorem processStep_keeps (hi : CommitsLocked p s l) (h : ProcessStep p s l action s' l')
    (hpq : p ≠ q) : Keeps view q s s' := by
  cases h with
  | quiet horders _ hlocks => exact keeps_of_orders horders hlocks hpq
  | started _ havailable => exact keeps_acquire hpq havailable
  | held _ havailable => exact keeps_acquire hpq havailable
  | recorded => exact .refl _ _
  | cancelled =>
    refine keeps_commit hpq fun orderId hrow => ?_
    rw [lookup_singleton_isSome hrow]
    exact hi
  | placed hstep =>
    cases hstep with
    | quiet hdb => exact keeps_of_orders (congrArg OrdersDb.orders hdb) (Or.inl rfl) hpq
    | matched havailable => exact keeps_acquire hpq havailable
    | unmatched => exact .refl _ _
    | finished => exact .refl _ _
    | committed => exact keeps_commit hpq hi
    | aborted => exact keeps_release hpq

/-! ### What a step restores -/

/-- A condition on the update of a maker: on the committed database, the state of the
transaction, the entry, and the filled amount about to be stored. -/
abbrev Condition := OrdersDb → UnitOfWork → OrderbookEntry → ℤ → Prop

/-- The maker's order is committed. -/
def MakerCommitted : Condition := fun db _ maker _ => (db.findById maker.orderId).isSome

/-- Every update of a maker meets the condition. -/
def Meets (A : Condition) (db : OrdersDb) (l : Process) (action : Action) : Prop :=
  ∀ request recordId w maker makerFilled tradeId, action = .trade tradeId →
    l = .creating request (.placing recordId (.active w (.updating maker makerFilled))) →
      A db w maker makerFilled

theorem processInvariant_of_inert (h : Inert l) : ProcessInvariant p s l := by
  cases l with
  | idle => trivial
  | refused exception => trivial
  | creating request progress =>
    cases progress with
    | placing recordId placing =>
      cases placing with
      | active w point => exact h.elim
      | _ => trivial
    | _ => trivial
  | cancelling request progress =>
    cases progress with
    | recording updated levelTotalQuantity sequenceId => exact h.elim
    | committing updated event => exact h.elim
    | _ => trivial

private theorem placing_own {request : ValidRequest} {recordId : Uuid}
    (hmeets : Meets MakerCommitted s.store.db
      (.creating request (.placing recordId (.active w point))) action)
    (hi : Holding p s w ∧ Booked w point) (h : ActiveStep p s w point action s' placing) :
    PlacingInvariant p s' placing := by
  obtain ⟨hw, hbooked⟩ := hi
  cases h with
  | quiet hdb _ hevents => exact ⟨(hw.store hdb).other, hevents hbooked⟩
  | matched havailable hrow _ hpending =>
    have hcommitted := hmeets _ _ _ _ _ _ rfl rfl
    refine ⟨hw.write hrow (fun _ => hcommitted) rfl rfl (fun e he => ?_) rfl
      (fun k hk => LockTable.acquire_own hk) LockTable.acquire_self, ?_⟩
    · simp only [UnitOfWork.fill, reported, List.map_append, List.mem_append, List.map_cons,
        List.map_nil, List.mem_singleton] at he
      refine he.imp_right ?_
      rintro rfl k hk
      exact names_matchedTrade.mp hk
    · have hnone : (w.outboxList.filterMap OutboxEvent.trade).map unnumbered = [] :=
        List.append_left_eq_self.mp hbooked
      rw [Booked, hpending]
      simp [UnitOfWork.fill, UnitOfWork.write, hnone]
  | unmatched hrow =>
    have hcommitted := hmeets _ _ _ _ _ _ rfl rfl
    simp only [UnitOfWork.findById, Option.or_eq_none_iff] at hrow
    simp [MakerCommitted, hrow.2] at hcommitted
  | finished hfinished hpending =>
    have hrow : (w.findById s.store.db w.takerOrder.id).isSome := by
      simp only [UnitOfWork.findById, Option.isSome_or, hw.own, Bool.true_or]
    refine ⟨hw.write hrow (fun h => absurd rfl h) rfl rfl (fun e he => Or.inl he) rfl
      (fun k hk => hk) (hw.locked _ hw.own), ?_⟩
    rw [Booked, hpending]
    exact hbooked
  | committed hended =>
    cases placing with
    | active u at' => exact absurd rfl (hended u at')
    | _ => trivial
  | aborted => trivial

theorem processStep_own (hmeets : Meets MakerCommitted s.store.db l action)
    (hi : ProcessInvariant p s l) (h : ProcessStep p s l action s' l') :
    ProcessInvariant p s' l' := by
  cases h with
  | quiet _ _ _ hinert => exact processInvariant_of_inert hinert
  | started _ _ hfresh => exact ⟨holding_start hfresh, rfl⟩
  | placed hstep => exact placing_own hmeets hi hstep
  | held horder => exact ⟨LockTable.acquire_self, _, horder, rfl⟩
  | recorded => exact ⟨hi, rfl⟩
  | cancelled hinert => exact processInvariant_of_inert hinert

end EtherTrade.OrdersTransactionSteps
