import EtherTrade.OrderColumns
import EtherTrade.OrderFillLaws

/-!
# Idempotency keys of createOrder

Over every interleaving of calls, with failures at any step and time passing: a call
that may yet commit an order holds the only record of its key, records stay, and so at
most one order is committed for a key.
-/

namespace EtherTrade.OrderIdempotencyLaws

open KeyedRows AccountsSchema OrdersSchema OrderBook MatchingEngine
open InterleavedProcesses ResourceLocks OrdersTransactions OrdersTransactionInvariants
open OrdersTransactionSteps OrdersTransactionRuns OrderFillLaws OrderColumns

variable {db : OrdersDb} {p q : ℕ} {s s' : Shared} {w w' : UnitOfWork} {l l' : Process}
  {action : Action} {c d : OrdersConfig} {e : Event Action} {es fs : List (Event Action)}
  {key : Uuid × String} {orderId : Uuid} {point : Point} {placing : Placing}

/-! ### Records -/

/-- The user of an order and the key its client chose. -/
def orderKey (order : Order) : Uuid × String := (order.userId, order.idempotencyKey)

def requestKey (request : CreateOrderRequest) : Uuid × String :=
  (request.userId, request.idempotencyKey)

def recordScope (key : Uuid × String) : Uuid × String × String :=
  (key.1, createOrderOperation, key.2)

/-- A record of the key exists, expired or not. -/
def HasRecord (db : OrdersDb) (key : Uuid × String) : Prop :=
  recordScope key ∈ db.idempotencyRecords.map IdempotencyRecord.scope

/-- The key for which a call has made a record and may yet commit an order. -/
def claimedKey : Process → Option (Uuid × String)
  | .creating request (.locking _) => some (requestKey request.val)
  | .creating request (.awaitingLock _) => some (requestKey request.val)
  | .creating request (.placing _ .inserting) => some (requestKey request.val)
  | .creating request (.placing _ (.active _ _)) => some (requestKey request.val)
  | _ => none

/-- An update of a record keeps its scope, and completes it only with a payload. -/
structure Updated (r r' : IdempotencyRecord) : Prop where
  scope : r'.scope = r.scope
  completed : r'.status = .completed → r' = r ∨ r'.responsePayload.isSome

/-- What a step does to the records and to the key its call claims. -/
inductive RecordStep (s : Shared) : Process → Shared → Process → Prop
  | kept {l l' : Process} {s' : Shared} {f : IdempotencyRecord → IdempotencyRecord}
      (hrecords : s'.store.db.idempotencyRecords = s.store.db.idempotencyRecords.map f)
      (hupdated : ∀ r, Updated r (f r))
      (hkey : claimedKey l' = none ∨
        claimedKey l' = claimedKey l ∧ s'.store.db.orders = s.store.db.orders) :
      RecordStep s l s' l'
  | recorded {request : ValidRequest} {recordId : Uuid}
      (hnew : ¬HasRecord s.store.db (requestKey request.val)) :
      RecordStep s (.creating request .recording)
        (setDb s (s.store.db.insertRecord (newRecord request.val recordId s.store.now)))
        (.creating request (.locking recordId))

theorem updated_refl (r : IdempotencyRecord) : Updated r (id r) := ⟨rfl, fun _ => Or.inl rfl⟩

theorem updated_setRecord {recordId : Uuid} {f : IdempotencyRecord → IdempotencyRecord}
    (hf : ∀ r, Updated r (f r)) (r : IdempotencyRecord) :
    Updated r (if r.id = recordId then f r else r) := by
  split
  · exact hf r
  · exact updated_refl r

theorem updated_fail (r : IdempotencyRecord) : Updated r { r with status := .failed } :=
  ⟨rfl, nofun⟩

theorem updated_complete (item : OrderItem) (r : IdempotencyRecord) :
    Updated r { r with status := .completed, responsePayload := some item } :=
  ⟨rfl, fun _ => Or.inr rfl⟩

theorem RecordStep.same
    (hrecords : s'.store.db.idempotencyRecords = s.store.db.idempotencyRecords)
    (hkey : claimedKey l' = none ∨
      claimedKey l' = claimedKey l ∧ s'.store.db.orders = s.store.db.orders) :
    RecordStep s l s' l' :=
  .kept (by rw [hrecords, List.map_id]) updated_refl hkey

theorem claimedKey_placing (request : ValidRequest) (recordId : Uuid) (placing : Placing) :
    claimedKey (.creating request (.placing recordId placing)) = none ∨
      claimedKey (.creating request (.placing recordId placing)) =
        some (requestKey request.val) := by
  cases placing with
  | inserting => exact Or.inr rfl
  | active w point => exact Or.inr rfl
  | committed order => exact Or.inl rfl
  | rolledBack => exact Or.inl rfl

theorem activeStep_committing (h : activeStep p s w .committing action = some (s', placing)) :
    placing = .committed w.updatedTaker ∨ placing = .rolledBack := by
  cases action with
  | statement =>
    cases h
    exact Or.inl rfl
  | commitUnacknowledged =>
    cases h
    exact Or.inr rfl
  | abort =>
    cases h
    exact Or.inr rfl
  | _ => cases h

private theorem activeStep_records {request : ValidRequest} {recordId : Uuid}
    (h : activeStep p s w point action = some (s', placing)) :
    RecordStep s (.creating request (.placing recordId (.active w point))) s'
      (.creating request (.placing recordId placing)) := by
  have hstep := activeStep_cases h
  have hclaim := claimedKey_placing request recordId placing
  cases hstep with
  | quiet hdb => exact .same (by rw [hdb]) (Or.inr ⟨rfl, by rw [hdb]⟩)
  | matched => exact .same rfl (Or.inr ⟨rfl, rfl⟩)
  | unmatched => exact .same rfl (hclaim.imp_right fun h => ⟨h, rfl⟩)
  | finished => exact .same rfl (Or.inr ⟨rfl, rfl⟩)
  | committed =>
    refine .same rfl (Or.inl ?_)
    rcases activeStep_committing h with rfl | rfl <;> rfl
  | aborted => exact .same rfl (Or.inl rfl)

private theorem placingStep_records {request : ValidRequest} {recordId : Uuid} {placing' : Placing}
    (h : placingStep p s request.val placing action = some (s', placing')) :
    RecordStep s (.creating request (.placing recordId placing)) s'
      (.creating request (.placing recordId placing')) := by
  cases placing with
  | inserting =>
    have hclaim := claimedKey_placing request recordId placing'
    cases action with
    | insert newId =>
      simp only [placingStep] at h
      split at h
      · cases h
        exact .same rfl (hclaim.imp_right fun h => ⟨h, rfl⟩)
      · split at h
        · split at h <;> cases h <;> exact .same rfl (hclaim.imp_right fun h => ⟨h, rfl⟩)
        · cases h
    | abort =>
      cases h
      exact .same rfl (Or.inl rfl)
    | _ => cases h
  | active w point => exact activeStep_records h
  | _ => cases action <;> cases h

private theorem hasRecord_iff {request : CreateOrderRequest} {recordId : Uuid} {now : ℕ} :
    (lookup IdempotencyRecord.scope db.idempotencyRecords
      (newRecord request recordId now).scope).isSome ↔ HasRecord db (requestKey request) := by
  rw [Option.isSome_iff_ne_none, Ne, lookup_eq_none, HasRecord, List.mem_map]
  push Not
  rfl

private theorem creatingStep_records {request : ValidRequest} {progress progress' : Creating}
    (h : creatingStep p s request.val progress action = some (s', progress')) :
    RecordStep s (.creating request progress) s' (.creating request progress') := by
  cases progress with
  | placing recordId placing =>
    have hplacing (h : (placingStep p s request.val placing action).map
        (fun r => (r.1, Creating.placing recordId r.2)) = some (s', progress')) :
        RecordStep s (.creating request (.placing recordId placing)) s'
          (.creating request progress') := by
      obtain ⟨⟨s₁, placing'⟩, hstep, heq⟩ := Option.map_eq_some_iff.mp h
      obtain ⟨rfl, rfl⟩ := Prod.mk.inj heq
      exact placingStep_records hstep
    cases placing with
    | committed order =>
      cases action with
      | statement =>
        cases h
        exact .kept rfl (updated_setRecord (updated_complete _)) (Or.inl rfl)
      | abort =>
        cases h
        exact .same rfl (Or.inl rfl)
      | _ => exact hplacing h
    | rolledBack =>
      cases action with
      | statement =>
        cases h
        exact .same rfl (Or.inl rfl)
      | _ => exact hplacing h
    | _ => exact hplacing h
  | checking =>
    cases action with
    | statement =>
      simp only [creatingStep] at h
      split at h <;> cases h
      · exact .same rfl (Or.inl rfl)
      · refine .same rfl (Or.inl ?_)
        unfold resolveRecord
        split
        · rfl
        · rfl
        · split <;> rfl
    | abort =>
      cases h
      exact .same rfl (Or.inl rfl)
    | _ => cases h
  | recording =>
    cases action with
    | insert recordId =>
      simp only [creatingStep] at h
      split at h <;> cases h
      · exact .same rfl (Or.inl rfl)
      · next hexists =>
        rw [Bool.or_eq_true, not_or, hasRecord_iff] at hexists
        exact .recorded hexists.1
    | abort =>
      cases h
      exact .same rfl (Or.inl rfl)
    | _ => cases h
  | locking recordId =>
    cases action with
    | statement =>
      cases h
      exact .same rfl (Or.inr ⟨rfl, rfl⟩)
    | _ => cases h
  | awaitingLock recordId =>
    cases action with
    | reply reply =>
      cases reply with
      | ok =>
        cases h
        exact .same rfl (Or.inr ⟨rfl, rfl⟩)
      | error message =>
        cases h
        exact .same rfl (Or.inl rfl)
    | _ => cases h
  | lockRefused recordId message =>
    cases action with
    | statement =>
      cases h
      exact .kept rfl (updated_setRecord updated_fail) (Or.inl rfl)
    | abort =>
      cases h
      exact .same rfl (Or.inl rfl)
    | _ => cases h
  | failing recordId =>
    cases action with
    | statement =>
      cases h
      exact .kept rfl (updated_setRecord updated_fail) (Or.inl rfl)
    | abort =>
      cases h
      exact .same rfl (Or.inl rfl)
    | _ => cases h
  | awaitingUnlock recordId =>
    cases action with
    | reply reply =>
      cases h
      exact .same rfl (Or.inl rfl)
    | _ => cases h
  | _ => cases action <;> cases h

/-- A cancellation leaves the records and the time alone. -/
theorem cancellingStep_records {request : CancelOrderRequest}
    {progress progress' : Cancelling}
    (h : cancellingStep p s request progress action = some (s', progress')) :
    s'.store.db.idempotencyRecords = s.store.db.idempotencyRecords ∧
      s'.store.now = s.store.now := by
  cases progress with
  | finding =>
    cases action with
    | statement =>
      simp only [cancellingStep] at h
      split at h
      · cases h
        exact ⟨rfl, rfl⟩
      · split at h
        · cases h
          exact ⟨rfl, rfl⟩
        · split at h <;> cases h <;> exact ⟨rfl, rfl⟩
    | _ => cases h <;> exact ⟨rfl, rfl⟩
  | updating levelTotalQuantity sequenceId =>
    cases action with
    | statement =>
      simp only [cancellingStep] at h
      split at h
      · cases h
        exact ⟨rfl, rfl⟩
      · split at h
        · cases h
          exact ⟨rfl, rfl⟩
        · cases h
    | _ => cases h <;> exact ⟨rfl, rfl⟩
  | unlocking cancelledOrder =>
    cases action with
    | statement =>
      simp only [cancellingStep] at h
      split at h <;> cases h <;> exact ⟨rfl, rfl⟩
    | _ => cases h
  | _ => cases action <;> cases h <;> exact ⟨rfl, rfl⟩

theorem step_records (h : step p s l action = some (s', l')) : RecordStep s l s' l' := by
  cases l with
  | idle =>
    cases action with
    | createOrder request =>
      simp only [step] at h
      split at h <;> cases h <;> exact .same rfl (Or.inl rfl)
    | cancelOrder request =>
      cases h
      exact .same rfl (Or.inl rfl)
    | passTime ms =>
      cases h
      exact .same rfl (Or.inl rfl)
    | _ => cases h
  | refused exception => cases h
  | creating request progress =>
    simp only [step, Option.map_eq_some_iff, Prod.mk.injEq] at h
    obtain ⟨⟨s₁, progress'⟩, hstep, rfl, rfl⟩ := h
    exact creatingStep_records hstep
  | cancelling request progress =>
    simp only [step, Option.map_eq_some_iff, Prod.mk.injEq] at h
    obtain ⟨⟨s₁, progress'⟩, hstep, rfl, rfl⟩ := h
    exact .same (cancellingStep_records hstep).1 (Or.inl rfl)

/-! ### Keys of rows -/

/-- The key of a committed order. -/
def committedKey (db : OrdersDb) (orderId : Uuid) : Option (Uuid × String) :=
  (db.findById orderId).map orderKey

/-- The rows of a transaction have the keys of the rows they are versions of. -/
def RowsKeyed (db : OrdersDb) (w : UnitOfWork) : Prop :=
  ∀ orderId row, lookup Order.id w.rows orderId = some row →
    if orderId = w.takerOrder.id then orderKey row = orderKey w.takerOrder
    else committedKey db orderId = some (orderKey row)

/-- A transaction holds its rows, whatever its trades name. -/
def CallHolds (p : ℕ) (s : Shared) : Process → Prop
  | .creating request (.placing _ (.active w _)) =>
    Holding p s { w with trades := [] } ∧ orderKey w.takerOrder = requestKey request.val ∧
      RowsKeyed s.store.db w
  | .cancelling request (.recording updated _ _) => Cancels p s request updated
  | .cancelling request (.committing updated _) => Cancels p s request updated
  | _ => True

theorem commitsLocked_of_callHolds (h : CallHolds p s l) : CommitsLocked p s l := by
  unfold CommitsLocked
  split
  · exact h.1.locked
  · exact locks_cancelled h
  · trivial

theorem callHolds_of_inert (h : Inert l) : CallHolds p s l := by
  unfold CallHolds
  split
  · exact h.elim
  · exact h.elim
  · exact h.elim
  · trivial

theorem callHolds_keeps (h : Keeps view q s s') (hi : CallHolds q s l) : CallHolds q s' l := by
  unfold CallHolds at hi ⊢
  split
  · obtain ⟨hw, hkey, hrows⟩ := hi
    refine ⟨holding_keeps h hw, hkey, fun orderId row hrow => ?_⟩
    have hview : s'.store.db.findById orderId = s.store.db.findById orderId :=
      h.view_eq (hw.locked orderId (Option.isSome_iff_exists.mpr ⟨row, hrow⟩))
    rw [committedKey, hview]
    exact hrows orderId row hrow
  · exact cancels_keeps h hi
  · exact cancels_keeps h hi
  · trivial

theorem fixed_orderKey : Fixed orderKey := fun _ _ _ _ => rfl

theorem activeStep_updating {maker : OrderbookEntry} {makerFilled : ℤ} {tradeId : Uuid}
    (h : activeStep p s w (.updating maker makerFilled) (.trade tradeId) = some (s', placing)) :
    ∃ next, placing = .active (w.fill s.store.db maker makerFilled tradeId) next ∧
      (w.findById s.store.db maker.orderId = none ∧ s' = s ∨
        (w.findById s.store.db maker.orderId).isSome ∧
          s' = takeLock p s maker.orderId) := by
  simp only [activeStep] at h
  split at h
  · next hrow =>
    cases h
    exact ⟨_, rfl, Or.inl ⟨Option.isNone_iff_eq_none.mp hrow, rfl⟩⟩
  · next hrow =>
    split at h
    · cases h
      exact ⟨_, rfl, Or.inr ⟨by simpa [Option.isSome_iff_ne_none] using hrow, rfl⟩⟩
    · cases h

/-- `Holding.write`, without the trades. -/
theorem holding_write {filledAmount remainingAmount : ℤ} {status : OrderStatus}
    (h : Holding p s { w with trades := [] }) (hrow : (w.findById s.store.db orderId).isSome)
    (hrows : w'.rows = (w.write
      (w.updateExecution s.store.db orderId filledAmount remainingAmount status)).rows)
    (htaker : w'.takerOrder = w.takerOrder) (hstore : s'.store = s.store)
    (hlocks : ∀ k, s.locks k = some p → s'.locks k = some p)
    (hlock : s'.locks orderId = some p) : Holding p s' { w' with trades := [] } := by
  have hbased : orderId ≠ w.takerOrder.id → (s.store.db.findById orderId).isSome := by
    intro hne
    simp only [UnitOfWork.findById, Option.isSome_or, Bool.or_eq_true] at hrow
    exact hrow.elim (h.based orderId hne) id
  have hnamed : ∀ e ∈ reported { w' with trades := [] }.trades,
      e ∈ reported { w with trades := [] }.trades ∨
        ∀ k, e.Names k → k = w.takerOrder.id ∨ k = orderId :=
    fun e he => absurd he List.not_mem_nil
  exact h.write hrow hbased hrows htaker hnamed hstore hlocks hlock

/-- An update leaves the transaction holding its rows, also one that finds no row. -/
private theorem callHolds_fill {request : ValidRequest} {recordId : Uuid} {maker : OrderbookEntry}
    {makerFilled : ℤ} {tradeId : Uuid}
    (hi : CallHolds p s (.creating request (.placing recordId (.active w point))))
    (h : activeStep p s w (.updating maker makerFilled) (.trade tradeId) = some (s', placing)) :
    CallHolds p s' (.creating request (.placing recordId placing)) := by
  obtain ⟨hw, hkey, hrows⟩ := hi
  obtain ⟨next, rfl, ⟨hnone, rfl⟩ | ⟨hrow, rfl⟩⟩ := activeStep_updating h
  · have hsame : (w.fill s'.store.db maker makerFilled tradeId).rows = w.rows := by
      simp [UnitOfWork.write, UnitOfWork.updateExecution, hnone, merge_nil]
    refine ⟨⟨?_, ?_, hw.fresh, ?_, ?_, fun e he => absurd he List.not_mem_nil⟩, hkey,
      rowsKeep_write fixed_orderKey hrows rfl (UnitOfWork.fill_rows ..) hw.fresh⟩
    · rw [hsame]
      exact hw.unique
    · rw [hsame]
      exact hw.locked
    · rw [hsame]
      exact hw.own
    · rw [hsame]
      exact hw.based
  · exact ⟨holding_write hw hrow (UnitOfWork.fill_rows ..) rfl rfl
      (fun k hk => LockTable.acquire_own hk) LockTable.acquire_self, hkey,
      rowsKeep_write fixed_orderKey hrows rfl (UnitOfWork.fill_rows ..) hw.fresh⟩

theorem newOrder_key {request : CreateOrderRequest} {newId : Uuid} {order : Order}
    (h : newOrder request newId = some order) : orderKey order = requestKey request := by
  simp only [newOrder, Option.bind_eq_bind, Option.bind_eq_some_iff, Option.pure_def,
    Option.some.injEq] at h
  obtain ⟨price, -, amount, -, rfl⟩ := h
  rfl

private theorem callHolds_placing {request : ValidRequest} {recordId : Uuid}
    (hi : CallHolds p s (.creating request (.placing recordId (.active w point))))
    (h : activeStep p s w point action = some (s', placing)) :
    CallHolds p s' (.creating request (.placing recordId placing)) := by
  have hstep := activeStep_cases h
  cases hstep with
  | quiet hdb =>
    obtain ⟨hw, hkey, hrows⟩ := hi
    refine ⟨(hw.store hdb).other, hkey, ?_⟩
    rw [hdb]
    exact hrows
  | matched => exact callHolds_fill hi h
  | unmatched => exact callHolds_fill hi h
  | finished =>
    obtain ⟨hw, hkey, hrows⟩ := hi
    have hrow : (w.findById s.store.db w.takerOrder.id).isSome := by
      simp only [UnitOfWork.findById, Option.isSome_or, Bool.or_eq_true]
      exact Or.inl hw.own
    exact ⟨holding_write hw hrow (UnitOfWork.finish_rows ..) rfl rfl (fun k hk => hk)
      (hw.locked _ hw.own), hkey,
      rowsKeep_write fixed_orderKey hrows rfl (UnitOfWork.finish_rows ..) hw.fresh⟩
  | committed =>
    rcases activeStep_committing h with rfl | rfl <;> trivial
  | aborted => trivial

theorem callHolds_own (hi : CallHolds p s l) (h : step p s l action = some (s', l')) :
    CallHolds p s' l' := by
  have hstep := step_cases h
  cases hstep with
  | quiet _ _ _ hinert => exact callHolds_of_inert hinert
  | started horder _ hfresh =>
    exact ⟨holding_start hfresh, newOrder_key horder, rowsKeep_start _⟩
  | held horder => exact ⟨LockTable.acquire_self, _, horder, rfl⟩
  | recorded => exact hi
  | cancelled hinert => exact callHolds_of_inert hinert
  | placed =>
    simp only [step, creatingStep, placingStep, Option.map_eq_some_iff, Prod.mk.injEq] at h
    obtain ⟨⟨s₁, progress⟩, ⟨⟨s₂, placing⟩, hactive, rfl, rfl⟩, rfl, hl⟩ := h
    cases hl
    exact callHolds_placing hi hactive

/-- What a call holds while it places an order, and while it cancels one. -/
theorem CallHolds.columns (hi : CallHolds p s l) :
    (∀ request recordId w point, l = .creating request (.placing recordId (.active w point)) →
      RowsKeep orderKey s.store.db w ∧ (lookup Order.id w.rows w.takerOrder.id).isSome) ∧
    ∀ request updated event, l = .cancelling request (.committing updated event) →
      ∃ order, cancellableOrder s.store.db request = some order ∧
        updated = { order with status := .cancelled } := by
  refine ⟨?_, ?_⟩
  · rintro request recordId w point rfl
    exact ⟨hi.2.2, hi.1.own⟩
  · rintro request updated event rfl
    exact hi.row

/-- A commit gives the key of its request to the new order, and changes no other. -/
theorem committedKey_step (hi : CallHolds p s l) (h : ProcessStep p s l action s' l') :
    (∀ k, committedKey s'.store.db k = committedKey s.store.db k) ∨
      ∃ newId, committedKey s.store.db newId = none ∧ ∀ k, committedKey s'.store.db k =
        if k = newId then claimedKey l else committedKey s.store.db k := by
  rcases findById_step fixed_orderKey hi.columns.1 hi.columns.2 h with hsame | ⟨request, recordId,
    w, rfl, hcommit⟩
  · exact Or.inl hsame
  · obtain ⟨hw, hkey, -⟩ := hi
    refine Or.inr ⟨w.takerOrder.id, ?_, fun k => ?_⟩
    · rw [committedKey, hw.fresh]
      rfl
    · rw [claimedKey, ← hkey]
      exact hcommit k

/-! ### At most one order for a key -/

theorem hasRecord_map {f : IdempotencyRecord → IdempotencyRecord}
    (hrecords : s'.store.db.idempotencyRecords = s.store.db.idempotencyRecords.map f)
    (hupdated : ∀ r, Updated r (f r)) :
    HasRecord s'.store.db key ↔ HasRecord s.store.db key := by
  have hscopes : (s.store.db.idempotencyRecords.map f).map IdempotencyRecord.scope =
      s.store.db.idempotencyRecords.map IdempotencyRecord.scope := by
    rw [List.map_map]
    exact List.map_congr_left fun r _ => (hupdated r).scope
  rw [HasRecord, hrecords, hscopes]
  rfl

/-- A record that is new claims a key that nobody has. -/
theorem hasRecord_insertRecord {request : CreateOrderRequest} {recordId : Uuid} {now : ℕ} :
    HasRecord (db.insertRecord (newRecord request recordId now)) key ↔
      HasRecord db key ∨ key = requestKey request := by
  have hscope : (newRecord request recordId now).scope = recordScope (requestKey request) := rfl
  have hinj : recordScope key = recordScope (requestKey request) ↔ key = requestKey request := by
    simp [recordScope, Prod.ext_iff]
  simp only [HasRecord, OrdersDb.insertRecord, List.map_append, List.mem_append, List.map_cons,
    List.map_nil, List.mem_singleton, hscope, hinj]

/-- Every claimed key and every key of an order has a record, and no key is claimed twice,
used twice, or claimed and used. -/
structure KeysApart (claims : ℕ → Option (Uuid × String)) (db : OrdersDb) : Prop where
  claimed : ∀ p key, claims p = some key → HasRecord db key
  exclusive : ∀ p q key, claims p = some key → claims q = some key → p = q
  used : ∀ k key, committedKey db k = some key →
    HasRecord db key ∧ ∀ p, claims p ≠ some key
  once : ∀ j k key, committedKey db j = some key → committedKey db k = some key → j = k

structure KeysOnce (c : OrdersConfig) : Prop where
  unique : KeyUnique Order.id c.shared.store.db.orders
  calls : ∀ p, CallHolds p c.shared (c.procs p)
  apart : KeysApart (fun p => claimedKey (c.procs p)) c.shared.store.db

variable {claims claims' : ℕ → Option (Uuid × String)} {db' : OrdersDb}

/-- Claims may be given up. -/
theorem KeysApart.of_fewer (h : KeysApart claims db)
    (hclaims : ∀ p key, claims' p = some key → claims p = some key)
    (hrecords : ∀ key, HasRecord db' key ↔ HasRecord db key)
    (hcommitted : ∀ k, committedKey db' k = committedKey db k) : KeysApart claims' db' := by
  refine ⟨fun p key hp => ?_, fun p q key hp hq => ?_, fun k key hk => ?_, fun j k key hj hk => ?_⟩
  · exact (hrecords key).mpr (h.claimed p key (hclaims p key hp))
  · exact h.exclusive p q key (hclaims p key hp) (hclaims q key hq)
  · rw [hcommitted] at hk
    obtain ⟨hrecord, hfree⟩ := h.used k key hk
    exact ⟨(hrecords key).mpr hrecord, fun p hp => hfree p (hclaims p key hp)⟩
  · rw [hcommitted] at hj hk
    exact h.once j k key hj hk

/-- A commit turns a claim into an order. -/
theorem KeysApart.of_commit {newId : Uuid} (h : KeysApart claims db)
    (hclaims : ∀ q key, claims' q = some key → q ≠ p ∧ claims q = some key)
    (hrecords : ∀ key, HasRecord db' key ↔ HasRecord db key)
    (hcommitted : ∀ k, committedKey db' k = if k = newId then claims p else committedKey db k) :
    KeysApart claims' db' := by
  have hnew {k : Uuid} {key : Uuid × String} (hk : committedKey db k = some key) :
      claims p ≠ some key := (h.used k key hk).2 p
  refine ⟨fun q key hq => ?_, fun q r key hq hr => ?_, fun k key hk => ?_, fun j k key hj hk => ?_⟩
  · exact (hrecords key).mpr (h.claimed q key (hclaims q key hq).2)
  · exact h.exclusive q r key (hclaims q key hq).2 (hclaims r key hr).2
  · rw [hcommitted] at hk
    rw [hrecords]
    split at hk
    · refine ⟨h.claimed p key hk, fun q hq => ?_⟩
      obtain ⟨hne, hq⟩ := hclaims q key hq
      exact hne (h.exclusive q p key hq hk)
    · obtain ⟨hrecord, hfree⟩ := h.used k key hk
      exact ⟨hrecord, fun q hq => hfree q (hclaims q key hq).2⟩
  · rw [hcommitted] at hj hk
    split at hj <;> split at hk
    · next hj' hk' => rw [hj', hk']
    · exact absurd hj (hnew hk)
    · exact absurd hk (hnew hj)
    · exact h.once j k key hj hk

/-- A record that is new lets its call claim the key. -/
theorem KeysApart.of_record (h : KeysApart claims db) (hnew : ¬HasRecord db key)
    (hclaims : ∀ q k, claims' q = some k → q = p ∧ k = key ∨ q ≠ p ∧ claims q = some k)
    (hrecords : ∀ k, HasRecord db' k ↔ HasRecord db k ∨ k = key)
    (hcommitted : ∀ k, committedKey db' k = committedKey db k) : KeysApart claims' db' := by
  refine ⟨fun q k hq => ?_, fun q r k hq hr => ?_, fun j k hj => ?_, fun i j k hi hj => ?_⟩
  · rw [hrecords]
    rcases hclaims q k hq with ⟨-, hk⟩ | ⟨-, hq⟩
    · exact Or.inr hk
    · exact Or.inl (h.claimed q k hq)
  · rcases hclaims q k hq with ⟨rfl, hk⟩ | ⟨hqp, hq⟩ <;>
      rcases hclaims r k hr with ⟨hrp, hk'⟩ | ⟨hrp, hr⟩
    · exact hrp.symm
    · exact absurd (hk ▸ h.claimed r k hr) hnew
    · exact absurd (hk' ▸ h.claimed q k hq) hnew
    · exact h.exclusive q r k hq hr
  · rw [hcommitted] at hj
    obtain ⟨hrecord, hfree⟩ := h.used j k hj
    refine ⟨(hrecords k).mpr (Or.inl hrecord), fun q hq => ?_⟩
    rcases hclaims q k hq with ⟨-, hk⟩ | ⟨-, hq⟩
    · exact hnew (hk ▸ hrecord)
    · exact hfree q hq
  · rw [hcommitted] at hi hj
    exact h.once i j k hi hj

theorem keysApart_next (hc : KeysOnce c) (h : ordersSystem.next c e = some d) :
    KeysApart (fun p => claimedKey (d.procs p)) d.shared.store.db := by
  obtain ⟨s, l, hs, rfl⟩ := System.next_eq_some.mp h
  have hi := hc.calls e.proc
  have hcommitted := committedKey_step hi (step_cases hs)
  have hrecord := step_records hs
  have happart := hc.apart
  generalize hl : c.procs e.proc = l₀ at hrecord hcommitted
  have hclaims (q : ℕ) (key : Uuid × String)
      (hq : claimedKey (Function.update c.procs e.proc l q) = some key) :
      q = e.proc ∧ claimedKey l = some key ∨ q ≠ e.proc ∧ claimedKey (c.procs q) = some key := by
    by_cases hqe : q = e.proc
    · subst hqe
      exact Or.inl ⟨rfl, by simpa using hq⟩
    · exact Or.inr ⟨hqe, by simpa [Function.update_of_ne hqe] using hq⟩
  cases hrecord with
  | kept hrecords hupdated hkey =>
    have hiff (key : Uuid × String) : HasRecord s.store.db key ↔ HasRecord c.shared.store.db key :=
      hasRecord_map hrecords hupdated
    rcases hkey with hnone | ⟨hsame, horders⟩
    · have hfewer (q : ℕ) (key : Uuid × String)
          (hq : claimedKey (Function.update c.procs e.proc l q) = some key) :
          q ≠ e.proc ∧ claimedKey (c.procs q) = some key := by
        rcases hclaims q key hq with ⟨-, hl⟩ | hq
        · rw [hnone] at hl
          cases hl
        · exact hq
      rcases hcommitted with hcommitted | ⟨newId, -, hcommitted⟩
      · exact happart.of_fewer (fun q key hq => (hfewer q key hq).2) hiff hcommitted
      · subst hl
        exact happart.of_commit hfewer hiff hcommitted
    · refine happart.of_fewer (fun q key hq => ?_) hiff fun k => ?_
      · rcases hclaims q key hq with ⟨rfl, hkey⟩ | ⟨-, hq⟩
        · rw [← hkey, hsame, ← hl]
        · exact hq
      · rw [committedKey, OrdersDb.findById, horders]
        rfl
  | recorded hnew =>
    refine happart.of_record (p := e.proc) hnew (fun q key hq => ?_)
      (fun k => hasRecord_insertRecord) fun k => rfl
    exact (hclaims q key hq).imp_left fun h => ⟨h.1, (Option.some.inj h.2).symm⟩

theorem keysOnce_next (hc : KeysOnce c) (h : ordersSystem.next c e = some d) : KeysOnce d := by
  have happart := keysApart_next hc h
  obtain ⟨s, l, hs, rfl⟩ := System.next_eq_some.mp h
  have hstep : ProcessStep e.proc c.shared (c.procs e.proc) e.action s l := step_cases hs
  have hi := hc.calls e.proc
  have hrows : ∀ request recordId w point,
      c.procs e.proc = .creating request (.placing recordId (.active w point)) →
        KeyUnique Order.id w.rows := by
    intro request recordId w point hl
    rw [hl] at hi
    exact hi.1.unique
  refine ⟨keyUnique_processStep hc.unique hrows hstep, fun q => ?_, happart⟩
  by_cases hq : q = e.proc
  · subst hq
    simpa using callHolds_own hi hs
  · simpa [Function.update_of_ne hq] using callHolds_keeps
      (processStep_keeps (commitsLocked_of_callHolds hi) hstep (Ne.symm hq)) (hc.calls q)

/-- A committed order keeps its key. -/
theorem committedKey_next (hc : KeysOnce c) (h : ordersSystem.next c e = some d)
    (hkey : committedKey c.shared.store.db orderId = some key) :
    committedKey d.shared.store.db orderId = some key := by
  obtain ⟨s, l, hs, rfl⟩ := System.next_eq_some.mp h
  rcases committedKey_step (hc.calls e.proc) (step_cases hs) with hsame | ⟨newId, hnew, hsame⟩
  · rw [← hkey]
    exact hsame orderId
  · have hne : orderId ≠ newId := by
      rintro rfl
      rw [hkey] at hnew
      cases hnew
    rw [← hkey]
    exact (hsame orderId).trans (if_neg hne)

theorem keysOnce_initial : KeysOnce initial :=
  ⟨keyUnique_nil, fun _ => trivial, ⟨nofun, nofun, nofun, nofun⟩⟩

theorem keysOnce_of_exec (h : ordersSystem.exec initial es = some d) : KeysOnce d :=
  System.exec_invariant h keysOnce_initial fun _ _ _ => keysOnce_next

theorem committedKey_of_mem (hc : KeysOnce c) {order : Order}
    (h : order ∈ c.shared.store.db.orders) :
    committedKey c.shared.store.db order.id = some (orderKey order) := by
  rw [committedKey, OrdersDb.findById, (lookup_eq_some hc.unique).mpr ⟨h, rfl⟩]
  rfl

/-- However the calls with one key interleave, fail or come again later, the committed
orders never repeat a key, and no later order has the key of an earlier one. -/
theorem at_most_one_order (es fs : List (Event Action)) (c d : OrdersConfig)
    (h : ordersSystem.exec initial es = some c) (h' : ordersSystem.exec c fs = some d) :
    KeyUnique orderKey c.shared.store.db.orders ∧ ∀ x ∈ c.shared.store.db.orders,
      ∀ y ∈ d.shared.store.db.orders, orderKey x = orderKey y → x.id = y.id := by
  have hc := keysOnce_of_exec h
  refine ⟨?_, fun x hx y hy hxy => ?_⟩
  · refine List.Nodup.map_on (fun x hx y hy hxy => ?_) (List.Nodup.of_map _ hc.unique)
    have hxkey := committedKey_of_mem hc hx
    rw [hxy] at hxkey
    exact hc.unique.eq hx hy (hc.apart.once _ _ _ hxkey (committedKey_of_mem hc hy))
  · obtain ⟨hd, hxkey⟩ := System.exec_invariant
      (I := fun e => KeysOnce e ∧ committedKey e.shared.store.db x.id = some (orderKey x))
      h' ⟨hc, committedKey_of_mem hc hx⟩
      fun _ _ _ hi hnext => ⟨keysOnce_next hi.1 hnext, committedKey_next hi.1 hnext hi.2⟩
    rw [hxy] at hxkey
    exact hd.apart.once _ _ _ hxkey (committedKey_of_mem hd hy)

/-- A buyer's order is placed, and long after its key has expired it is sent again. -/
def placedOnce : List (Event Action) :=
  opening 0 (limitOrder "first" .buy 100 1) "a" ++ statements 0 8

def sentAgain : List (Event Action) :=
  [⟨1, .passTime (25 * 60 * 60 * 1000)⟩, ⟨1, .createOrder (limitOrder "first" .buy 100 1)⟩,
    ⟨1, .statement⟩, ⟨1, .insert "again"⟩]

theorem placedOnce_executes : (ordersSystem.exec initial placedOnce).isSome = true := by
  decide +kernel

theorem sentAgain_executes :
    (ordersSystem.exec ((ordersSystem.exec initial placedOnce).get placedOnce_executes)
      sentAgain).isSome = true := by decide +kernel

theorem at_most_one_order_sentAgain :
    let c := (ordersSystem.exec initial placedOnce).get placedOnce_executes
    let d := (ordersSystem.exec c sentAgain).get sentAgain_executes
    KeyUnique orderKey c.shared.store.db.orders ∧ ∀ x ∈ c.shared.store.db.orders,
      ∀ y ∈ d.shared.store.db.orders, orderKey x = orderKey y → x.id = y.id :=
  at_most_one_order placedOnce sentAgain _ _ (Option.some_get _).symm (Option.some_get _).symm

/-! ### A key with another payload -/

/-- A completed record has the response that a later call gets. -/
def CompletedHavePayload (db : OrdersDb) : Prop :=
  ∀ r ∈ db.idempotencyRecords, r.status = .completed → r.responsePayload.isSome

theorem completedHavePayload_step (hc : CompletedHavePayload s.store.db)
    (h : RecordStep s l s' l') : CompletedHavePayload s'.store.db := by
  intro r hr hcompleted
  cases h with
  | kept hrecords hupdated =>
    rw [hrecords] at hr
    obtain ⟨old, hold, rfl⟩ := List.mem_map.mp hr
    rcases (hupdated old).completed hcompleted with hsame | hpayload
    · rw [hsame] at hcompleted ⊢
      exact hc old hold hcompleted
    · exact hpayload
  | recorded =>
    rcases List.mem_append.mp hr with hr | hr
    · exact hc r hr hcompleted
    · obtain rfl := List.mem_singleton.mp hr
      cases hcompleted

theorem completedHavePayload_of_exec (h : ordersSystem.exec initial es = some d) :
    CompletedHavePayload d.shared.store.db := by
  refine System.exec_invariant (I := fun e => CompletedHavePayload e.shared.store.db) h
    (fun r hr => absurd hr List.not_mem_nil) ?_
  intro _ _ _ hc hnext
  obtain ⟨s, l, hs, rfl⟩ := System.next_eq_some.mp hnext
  exact completedHavePayload_step hc (step_records hs)

/-- A call that has ended stays as it is. -/
theorem procs_of_ended (h : ordersSystem.exec c es = some d) {request : ValidRequest}
    {progress : Creating} (hproc : c.procs p = .creating request progress)
    (hended : ∀ s a, creatingStep p s request.val progress a = none) :
    d.procs p = .creating request progress := by
  rw [← hproc]
  refine System.exec_procs_of_final h fun s a => ?_
  rw [hproc]
  simp [ordersSystem, step, hended]

/-- What a call gets that meets a record with another payload, in whatever way the record
came to be. -/
theorem resolveRecord_mismatch {request : CreateOrderRequest} {record : IdempotencyRecord}
    (hhash : record.requestHash ≠ requestHash request)
    (hpayload : record.status = .completed → record.responsePayload.isSome) :
    (record.status ≠ .completed → ∃ failure, resolveRecord request record = .thrown failure) ∧
      (record.status = .completed → ∃ item, resolveRecord request record = .returned item) := by
  cases hstatus : record.status with
  | inProgress => exact ⟨fun _ => ⟨_, by simp [resolveRecord, hstatus]; rfl⟩, nofun⟩
  | completed =>
    obtain ⟨item, hitem⟩ := Option.isSome_iff_exists.mp (hpayload hstatus)
    exact ⟨fun hne => absurd rfl hne, fun _ => ⟨item, by simp [resolveRecord, hstatus, hitem]⟩⟩
  | failed => exact ⟨fun _ => ⟨_, by simp [resolveRecord, hstatus, hhash]; rfl⟩, nofun⟩

/-- In every run, a call that checks a key whose record has another payload is rejected
exactly when the record is not completed; a call that meets such a record only when it
inserts its own is always rejected. -/
theorem mismatch_rejected_iff (es fs : List (Event Action)) (c c' d : OrdersConfig) (p : ℕ)
    (action : Action) (request : ValidRequest) (record : IdempotencyRecord)
    (h : ordersSystem.exec initial es = some c) (hnext : ordersSystem.next c ⟨p, action⟩ = some c')
    (hlater : ordersSystem.exec c' fs = some d)
    (hhash : record.requestHash ≠ requestHash request.val) :
    (c.procs p = .creating request .checking → action = .statement →
      c.shared.store.db.findRecord c.shared.store.now request.val.userId createOrderOperation
        request.val.idempotencyKey = some record →
      ((∃ failure, d.procs p = .creating request (.thrown failure)) ↔
        record.status ≠ .completed)) ∧
    (c.procs p = .creating request .recording → (∃ recordId, action = .insert recordId) →
      lookup IdempotencyRecord.scope c.shared.store.db.idempotencyRecords
        (request.val.userId, createOrderOperation, request.val.idempotencyKey) = some record →
      ∃ failure, d.procs p = .creating request (.thrown failure)) := by
  obtain ⟨s, l, hs, rfl⟩ := System.next_eq_some.mp hnext
  constructor
  · rintro hproc rfl hrecord
    have hmem : record ∈ c.shared.store.db.idempotencyRecords :=
      (lookup_mem (Option.filter_eq_some_iff.mp hrecord).1).1
    have hpayload := completedHavePayload_of_exec h record hmem
    obtain ⟨hthrown, hreturned⟩ := resolveRecord_mismatch hhash hpayload
    simp only [ordersSystem, hproc, step, creatingStep, hrecord, Option.map_some,
      Option.some.injEq, Prod.mk.injEq] at hs
    obtain ⟨rfl, rfl⟩ := hs
    constructor
    · rintro ⟨failure, hd⟩ hcompleted
      obtain ⟨item, hitem⟩ := hreturned hcompleted
      rw [procs_of_ended hlater (Function.update_self ..) (by rw [hitem]; simp [creatingStep]),
        hitem] at hd
      cases hd
    · intro hstatus
      obtain ⟨failure, hfailure⟩ := hthrown hstatus
      refine ⟨failure, ?_⟩
      rw [procs_of_ended hlater (Function.update_self ..) (by rw [hfailure]; simp [creatingStep]),
        hfailure]
  · rintro hproc ⟨recordId, rfl⟩ hrecord
    have hscope : (newRecord request.val recordId c.shared.store.now).scope =
        (request.val.userId, createOrderOperation, request.val.idempotencyKey) := rfl
    simp only [ordersSystem, hproc, step, creatingStep, hscope, hrecord, Option.isSome_some,
      Bool.true_or, if_true, Option.map_some, Option.some.injEq, Prod.mk.injEq] at hs
    obtain ⟨rfl, rfl⟩ := hs
    exact ⟨_, procs_of_ended hlater (Function.update_self ..) (by simp [creatingStep])⟩

/-- The same client asks for five units under the key of an order of one. -/
def otherRequest : CreateOrderRequest := limitOrder "first" .buy 100 5

def firstRecord (status : IdempotencyStatus) (responsePayload : Option OrderItem) :
    IdempotencyRecord where
  id := "first"
  userId := "first"
  operation := createOrderOperation
  key := "first"
  requestHash := requestHash (limitOrder "first" .buy 100 1)
  status
  responsePayload
  expiresAt := 86400000

/-- The first call is waiting for its lock when the second comes. -/
def askedMeanwhile : List (Event Action) :=
  [⟨0, .createOrder (limitOrder "first" .buy 100 1)⟩, ⟨0, .statement⟩, ⟨0, .insert "first"⟩,
    ⟨0, .statement⟩, ⟨1, .createOrder otherRequest⟩]

theorem askedMeanwhile_executes : (ordersSystem.exec initial askedMeanwhile).isSome = true := by
  decide +kernel

theorem askedMeanwhile_checks : (ordersSystem.next ((ordersSystem.exec initial askedMeanwhile).get
    askedMeanwhile_executes) ⟨1, .statement⟩).isSome = true := by decide +kernel

theorem mismatch_rejected_askedMeanwhile :
    let c := (ordersSystem.exec initial askedMeanwhile).get askedMeanwhile_executes
    let d := (ordersSystem.next c ⟨1, .statement⟩).get askedMeanwhile_checks
    ∃ request failure, request.val = otherRequest ∧
      d.procs 1 = .creating request (.thrown failure) := by
  intro c d
  have hiff := (mismatch_rejected_iff askedMeanwhile [] c d d 1 .statement
    ⟨otherRequest, by decide +kernel⟩ (firstRecord .inProgress none) (Option.some_get _).symm
    (Option.some_get _).symm rfl (by decide)).1 (by decide +kernel) rfl (by decide +kernel)
  obtain ⟨failure, hfailure⟩ := hiff.mpr (by decide)
  exact ⟨_, failure, rfl, hfailure⟩

/-- The first call has returned its order when the second comes. -/
def askedAfterwards : List (Event Action) := placedOnce ++ [⟨1, .createOrder otherRequest⟩]

theorem askedAfterwards_executes : (ordersSystem.exec initial askedAfterwards).isSome = true := by
  decide +kernel

theorem askedAfterwards_checks : (ordersSystem.next
    ((ordersSystem.exec initial askedAfterwards).get askedAfterwards_executes)
      ⟨1, .statement⟩).isSome = true := by decide +kernel

/-- The order of one unit is returned to the client that asks for five. -/
theorem mismatch_returned_askedAfterwards : ¬∀ (es fs : List (Event Action)) (c c' d : OrdersConfig)
    (p : ℕ) (request : ValidRequest) (record : IdempotencyRecord),
    ordersSystem.exec initial es = some c → ordersSystem.next c ⟨p, .statement⟩ = some c' →
      ordersSystem.exec c' fs = some d → c.procs p = .creating request .checking →
        c.shared.store.db.findRecord c.shared.store.now request.val.userId createOrderOperation
          request.val.idempotencyKey = some record →
        record.requestHash ≠ requestHash request.val →
          ∃ failure, d.procs p = .creating request (.thrown failure) := by
  intro h
  obtain ⟨failure, hthrown⟩ := h askedAfterwards [] _ _ _ 1 ⟨otherRequest, by decide +kernel⟩
    (firstRecord .completed (some ⟨"a", "first", ⟨.eth, .usdt⟩, .buy, .limit, 10000000000,
      100000000, 0, 100000000, .opened⟩))
    (Option.some_get askedAfterwards_executes).symm (Option.some_get askedAfterwards_checks).symm
    rfl (by decide +kernel) (by decide +kernel) (by decide)
  have hreturned : ((ordersSystem.next ((ordersSystem.exec initial askedAfterwards).get
      askedAfterwards_executes) ⟨1, .statement⟩).get askedAfterwards_checks).procs 1 =
        .creating ⟨otherRequest, by decide +kernel⟩ (.returned ⟨"a", "first", ⟨.eth, .usdt⟩, .buy,
          .limit, 10000000000, 100000000, 0, 100000000, .opened⟩) := by decide +kernel
  rw [hreturned] at hthrown
  cases hthrown

end EtherTrade.OrderIdempotencyLaws
