import EtherTrade.OrdersTransactionSteps
import EtherTrade.SequentialOrders

/-!
# A call that runs alone

A process of the interleaved system that no other process interrupts, and none of whose
statements fails, computes what the functions of the sequential calls say.
-/

namespace EtherTrade.OrdersRunAlone

open KeyedRows AccountsSchema OrdersSchema OrderBook MatchingEngine
open InterleavedProcesses ResourceLocks OrdersTransactions OrdersTransactionSteps SequentialOrders

variable {p : ℕ} {s s' : Shared} {store : OrdersStore} {t : LockTable Uuid} {v : Valkey}
  {request : ValidRequest} {recordId : Uuid} {w : UnitOfWork} {point : Point} {placing : Placing}
  {action : Action} {tradeIds : ℕ → Uuid}

/-- The process of a call whose transaction is under way. -/
abbrev working (request : ValidRequest) (recordId : Uuid) (placing : Placing) : Process :=
  .creating request (.placing recordId placing)

/-- The transaction with the entries it has yet to visit. -/
abbrev withEntries (w : UnitOfWork) (opposingOrders : List OrderbookEntry) : UnitOfWork :=
  { w with opposingOrders }

theorem step_active (h : activeStep p s w point action = some (s', placing)) :
    ordersSystem.step p s (working request recordId (.active w point)) action =
      some (s', working request recordId placing) := by
  simp [ordersSystem, step, creatingStep, placingStep, h]

/-- The hashes are read one after the other. -/
theorem reading_alone (ids : List Uuid) (read : List OrderbookEntry) :
    ordersSystem.Reaches p s
      (working request recordId (.active (withEntries w read) (.reading ids))) s
      (working request recordId (.active
        (withEntries w (read ++ ids.filterMap s.store.valkey.getOrderDetails))
          .visiting)) := by
  induction ids generalizing read with
  | nil =>
    rw [List.filterMap_nil, List.append_nil]
    exact .of_step (a := .statement) (step_active rfl)
  | cons orderId ids ih =>
    refine .step (a := .statement) (step_active rfl) ?_
    have h := ih (read ++ (s.store.valkey.getOrderDetails orderId).toList)
    rw [List.append_assoc] at h
    cases hdetails : s.store.valkey.getOrderDetails orderId <;>
      simpa [hdetails] using h

theorem nextMaker_length {takerOrder : Order} {takerRemaining : ℤ} {maker : OrderbookEntry}
    {entries rest : List OrderbookEntry}
    (h : nextMaker takerOrder takerRemaining entries = some (maker, rest)) :
    rest.length < entries.length := by
  induction entries with
  | nil => cases h
  | cons e entries ih =>
    unfold nextMaker at h
    split at h
    · cases h
    · split at h
      · exact (ih h).trans (Nat.lt_succ_self _)
      · split at h
        · cases h
          exact Nat.lt_succ_self _
        · cases h

/-- The loop goes from one maker to the next. -/
theorem matchOrders_nextMaker (db : OrdersDb) (entries : List OrderbookEntry) (m : Matching) :
    matchOrders db tradeIds entries m =
      match nextMaker m.1.takerOrder m.1.currentTakerRemaining entries with
      | none => m
      | some (maker, rest) => matchOrders db tradeIds rest (fillMaker db tradeIds maker m) := by
  induction entries with
  | nil => rfl
  | cons e entries ih =>
    rw [matchOrders, nextMaker]
    split
    · rfl
    · split
      · exact ih
      · split <;> rfl

/-- The shared state with another book and other locks. -/
abbrev onBook (store : OrdersStore) (v : Valkey) (t : LockTable Uuid) : Shared :=
  ⟨{ store with valkey := v }, t⟩

section Work

variable (store : OrdersStore) (v : Valkey) (w : UnitOfWork) (request : ValidRequest)
  (recordId : Uuid) (tradeIds : ℕ → Uuid)

theorem updating_alone (maker : OrderbookEntry) (makerFilled : ℤ) (tradeId : Uuid)
    (ht : t.OnlyHeldBy p) : ∃ t', t'.OnlyHeldBy p ∧
      activeStep p (onBook store v t) w (.updating maker makerFilled) (.trade tradeId) =
        some (onBook store v t', .active (w.fill store.db maker makerFilled tradeId)
          (if w.makerStatus maker = .filled then .removing maker
            else .caching maker (w.newMakerRemaining maker))) := by
  by_cases hrow : (w.findById store.db maker.orderId).isNone = true
  · exact ⟨t, ht, by simp only [activeStep, hrow, if_true]⟩
  · refine ⟨t.acquire p maker.orderId, ht.acquire _, ?_⟩
    simp only [activeStep, hrow, Bool.false_eq_true, if_false, ht maker.orderId, if_true]
    rfl

/-- One match, from the read of the maker's row to the commands on its entry. -/
theorem fillMaker_alone (maker : OrderbookEntry) (rest : List OrderbookEntry)
    (ht : t.OnlyHeldBy p) : ∃ t', t'.OnlyHeldBy p ∧
      ordersSystem.Reaches p (onBook store v t)
        (working request recordId (.active (withEntries w rest) (.finding maker)))
        (onBook store (fillMaker store.db tradeIds maker (w, v)).2 t')
        (working request recordId (.active
          (withEntries (fillMaker store.db tradeIds maker (w, v)).1 rest)
            .visiting)) := by
  obtain ⟨t', ht', hupdate⟩ := updating_alone store v (withEntries w rest) maker
    (w.currentMakerFilled store.db maker) (tradeIds w.trades.length) ht
  refine ⟨t', ht', .step (a := .statement) (step_active rfl)
    (.step (a := .trade (tradeIds w.trades.length)) (step_active hupdate) ?_)⟩
  have hstatus : (withEntries w rest).makerStatus maker = w.makerStatus maker := rfl
  rw [hstatus]
  by_cases hfilled : w.makerStatus maker = .filled
  · rw [if_pos hfilled]
    refine .step (a := .statement) (step_active rfl) (.of_step (a := .statement) ?_)
    simp only [fillMaker, updateBook, hfilled, if_true]
    exact step_active rfl
  · rw [if_neg hfilled]
    refine .of_step (a := .statement) ?_
    simp only [fillMaker, updateBook, hfilled, if_false]
    exact step_active rfl

theorem matchOrders_alone (entries : List OrderbookEntry) (ht : t.OnlyHeldBy p) :
    ∃ t' rest, t'.OnlyHeldBy p ∧
      ordersSystem.Reaches p (onBook store v t)
        (working request recordId (.active (withEntries w entries) .visiting))
        (onBook store (matchOrders store.db tradeIds entries (w, v)).2 t')
        (working request recordId (.active
          (withEntries (matchOrders store.db tradeIds entries (w, v)).1 rest)
            .updatingTaker)) := by
  induction hlength : entries.length using Nat.strong_induction_on
    generalizing v w entries t with
  | _ n ih =>
    rw [matchOrders_nextMaker]
    cases hnext : nextMaker w.takerOrder w.currentTakerRemaining entries with
    | none =>
      refine ⟨t, entries, ht, .of_step (a := .statement) (step_active ?_)⟩
      simp only [activeStep, hnext]
    | some next =>
      obtain ⟨maker, rest⟩ := next
      obtain ⟨t₁, ht₁, hfill⟩ :=
        fillMaker_alone store v w request recordId tradeIds maker rest ht
      obtain ⟨t', rest', ht', hrest⟩ := ih rest.length (hlength ▸ nextMaker_length hnext)
        (fillMaker store.db tradeIds maker (w, v)).2
        (fillMaker store.db tradeIds maker (w, v)).1 rest ht₁ rfl
      refine ⟨t', rest', ht', .step (a := .statement) (step_active ?_) (hfill.trans hrest)⟩
      simp only [activeStep, hnext]

theorem reportTrades_alone (trades : List MatchedTrade) (entries : List OrderbookEntry) :
    ordersSystem.Reaches p (onBook store v t)
      (working request recordId (.active (withEntries w entries) (.numbering trades)))
      (onBook store (reportTrades trades (w, v)).2 t)
      (working request recordId (.active
        (withEntries (reportTrades trades (w, v)).1 entries) (.numbering []))) := by
  induction trades generalizing v w with
  | nil => exact .refl _ _
  | cons trade trades ih =>
    exact .step (a := .statement) (step_active rfl)
      (ih (v.nextSequence trade.symbol).1 (w.emit [tradeExecutedEvent trade
        (v.nextSequence trade.symbol).2]))

/-- The last update of the taker, and its entry if it rests in the book. -/
theorem finish_alone (entries : List OrderbookEntry) :
    ordersSystem.Reaches p (onBook store v t)
      (working request recordId (.active (withEntries w entries) .updatingTaker))
      (onBook store (if w.currentTakerRemaining = 0 then v else v.addOrder w.restingEntry) t)
      (working request recordId (.active (withEntries (w.finish store.db) entries)
        (.numbering w.trades))) := by
  have hfinish : activeStep p (onBook store v t) (withEntries w entries)
      .updatingTaker .statement = some (onBook store v t,
        .active (withEntries (w.finish store.db) entries)
          (if w.currentTakerRemaining = 0 then .numbering w.trades else .adding)) := rfl
  refine .step (a := .statement) (step_active hfinish) ?_
  by_cases hfilled : w.currentTakerRemaining = 0
  · rw [if_pos hfilled, if_pos hfilled]
    exact .refl _ _
  · rw [if_neg hfilled, if_neg hfilled]
    exact .step (a := .statement) (step_active rfl) (.of_step (a := .statement) (step_active rfl))

/-- From the read of the book to the taker's last update. -/
theorem executeMatch_alone (ht : t.OnlyHeldBy p) (hempty : w.opposingOrders = []) :
    ∃ t' entries, t'.OnlyHeldBy p ∧
      ordersSystem.Reaches p (onBook store v t) (working request recordId (.active w .ranging))
        (onBook store (executeMatch store.db tradeIds (w, v)).2 t')
        (working request recordId (.active
          (withEntries (executeMatch store.db tradeIds (w, v)).1 entries)
            (.numbering (executeMatch store.db tradeIds (w, v)).1.trades))) := by
  obtain ⟨t', rest, ht', hmatch⟩ := matchOrders_alone store v w request recordId tradeIds
    (v.getBestOpposingOrders w.takerOrder.pair w.takerOrder.side) ht
  have hsame : (withEntries w []) = w := by rw [← hempty]
  have hread : ordersSystem.Reaches p (onBook store v t)
      (working request recordId (.active (withEntries w [])
        (.reading (v.bestOpposingOrderIds w.takerOrder.pair w.takerOrder.side)))) (onBook store v t)
      (working request recordId (.active (withEntries w (v.getBestOpposingOrders w.takerOrder.pair w.takerOrder.side)) .visiting)) :=
    reading_alone _ []
  rw [hsame] at hread
  exact ⟨t', rest, ht', .step (a := .statement) (step_active rfl)
    (hread.trans (hmatch.trans (finish_alone ..)))⟩

/-- The whole transaction. -/
theorem placeOrder_alone (order : Order) (hstatus : (store.db.findById order.id).isSome = false)
    (hnew : newOrder request.val order.id = some order) :
    ordersSystem.Reaches p ⟨store, LockTable.free⟩ (working request recordId .inserting)
      ⟨{ store with
          db := store.db.install (placeOrder store.db tradeIds order store.valkey).1.rows
            (placeOrder store.db tradeIds order store.valkey).1.outboxList
          valkey := (placeOrder store.db tradeIds order store.valkey).2 }, LockTable.free⟩
      (working request recordId
        (.committed (placeOrder store.db tradeIds order store.valkey).1.updatedTaker)) := by
  have hinsert : ordersSystem.step p ⟨store, LockTable.free⟩
      (working request recordId .inserting) (.insert order.id) =
        some (onBook store store.valkey (LockTable.free.acquire p order.id),
          working request recordId (.active (.start order) .sequencing)) := by
    have havailable : (LockTable.free : LockTable Uuid).Available p order.id := Or.inl rfl
    simp [ordersSystem, step, creatingStep, placingStep, hnew, havailable, hstatus, takeLock]
  have hmatch := executeMatch_alone store (store.valkey.nextSequence order.pair).1
    ((UnitOfWork.start order).emit [orderPlacedEvent order
      ((store.valkey.nextSequence order.pair).1.getLevelTotalQuantity order.pair order.side
        order.price) (store.valkey.nextSequence order.pair).2]) request recordId tradeIds
    ((LockTable.onlyHeldBy_free p).acquire order.id) rfl
  obtain ⟨t', entries, ht', hmatch⟩ := hmatch
  refine .step hinsert (.step (a := .statement) (step_active rfl)
    (.step (a := .statement) (step_active rfl) (hmatch.trans
      ((reportTrades_alone ..).trans (.step (a := .statement) (step_active rfl)
        (.of_step (a := .statement) (step_active ?_)))))))
  simp only [activeStep, commit, ht'.release]
  rfl

end Work

/-- Where the process of a call ends. -/
def ended : Outcome → Creating
  | .returned item => .returned item
  | .thrown failure => .thrown failure

theorem answered_alone (store : OrdersStore) (request : ValidRequest) (ids : NewIds)
    (lockReply : BalanceReply) :
    ordersSystem.Reaches p ⟨store, LockTable.free⟩ (.creating request (.awaitingLock ids.recordId))
      ⟨(answered store request.val ids lockReply).1, LockTable.free⟩
      (.creating request (ended (answered store request.val ids lockReply).2)) := by
  cases lockReply with
  | error message =>
    exact .step (a := .reply (.error message)) rfl (.of_step (a := .statement) rfl)
  | ok =>
    refine .step (a := .reply .ok) rfl ?_
    have hcompensate (hstep : ordersSystem.step p ⟨store, LockTable.free⟩
        (working request ids.recordId .inserting) (.insert ids.orderId) =
          some (⟨store, LockTable.free⟩, working request ids.recordId .rolledBack)) :
        ordersSystem.Reaches p ⟨store, LockTable.free⟩ (working request ids.recordId .inserting)
          ⟨compensated store request.val ids.recordId, LockTable.free⟩
          (.creating request (.thrown .infrastructure)) :=
      .step hstep (.step (a := .statement) rfl
        (.step (a := .reply .ok) rfl (.of_step (a := .statement) rfl)))
    have hfree : (LockTable.free : LockTable Uuid).release p = LockTable.free :=
      (LockTable.onlyHeldBy_free p).release
    have havailable : (LockTable.free : LockTable Uuid).Available p ids.orderId := Or.inl rfl
    simp only [answered, insertedOrder]
    cases hnew : newOrder request.val ids.orderId with
    | none =>
      refine hcompensate ?_
      simp [ordersSystem, step, creatingStep, placingStep, hnew, rollback, hfree]
    | some order =>
      by_cases hexists : (store.db.findById ids.orderId).isNone = true
      · rw [Option.filter_some, if_pos hexists]
        have hid := newOrder_id hnew
        rw [← hid] at hnew hexists
        exact (placeOrder_alone store request ids.recordId ids.tradeIds order
          (by simpa using hexists) hnew).trans (.of_step (a := .statement) rfl)
      · have hsome : (store.db.findById ids.orderId).isSome = true := by
          simpa [Option.isSome_iff_ne_none] using hexists
        rw [Option.filter_some, if_neg hexists]
        refine hcompensate ?_
        simp [ordersSystem, step, creatingStep, placingStep, hnew, havailable, hsome, rollback, hfree]

/-- A process that runs `createOrder` alone, and whose lock gets the reply, does what the
function says. -/
theorem createOrder_alone (store : OrdersStore) (request : ValidRequest) (ids : NewIds)
    (lockReply : BalanceReply) :
    ordersSystem.Reaches p ⟨store, LockTable.free⟩ (.creating request .checking)
      ⟨(createOrder store request.val ids lockReply).1, LockTable.free⟩
      (.creating request (ended (createOrder store request.val ids lockReply).2)) := by
  have hrecording : ordersSystem.Reaches p ⟨store, LockTable.free⟩ (.creating request .recording)
      ⟨(if recordExists store request.val ids.recordId then (store, Outcome.thrown .infrastructure)
        else answered (lockSent store request.val ids.recordId) request.val ids lockReply).1,
          LockTable.free⟩
      (.creating request (ended (if recordExists store request.val ids.recordId then
        (store, Outcome.thrown .infrastructure)
        else answered (lockSent store request.val ids.recordId) request.val ids lockReply).2)) := by
    by_cases hexists : recordExists store request.val ids.recordId = true
    · rw [if_pos hexists]
      refine .of_step (a := .insert ids.recordId) ?_
      rw [recordExists] at hexists
      simp only [ordersSystem, step, creatingStep, hexists, if_true, Option.map_some]
      rfl
    · rw [if_neg hexists]
      have hinsert : ordersSystem.step p ⟨store, LockTable.free⟩ (.creating request .recording)
          (.insert ids.recordId) = some (setDb ⟨store, LockTable.free⟩ (store.db.insertRecord
            (newRecord request.val ids.recordId store.now)),
              .creating request (.locking ids.recordId)) := by
        rw [recordExists] at hexists
        simp only [ordersSystem, step, creatingStep, hexists, Bool.false_eq_true, if_false,
          Option.map_some]
      exact .step hinsert (.step (a := .statement) rfl (answered_alone ..))
  cases hrecord : store.db.findRecord store.now request.val.userId createOrderOperation
      request.val.idempotencyKey with
  | none =>
    have houtcome : findOutcome store request.val = none := by simp only [findOutcome, hrecord]
    simp only [createOrder, houtcome]
    have hcheck : ordersSystem.step p ⟨store, LockTable.free⟩ (.creating request .checking)
        .statement = some (⟨store, LockTable.free⟩, .creating request .recording) := by
      simp only [ordersSystem, step, creatingStep, hrecord, Option.map_some]
    exact .step hcheck hrecording
  | some record =>
    have hcheck : ordersSystem.step p ⟨store, LockTable.free⟩ (.creating request .checking)
        .statement =
          some (⟨store, LockTable.free⟩, .creating request (resolveRecord request.val record)) := by
      simp only [ordersSystem, step, creatingStep, hrecord, Option.map_some]
    refine .step hcheck ?_
    simp only [createOrder, findOutcome, hrecord]
    cases hresolve : resolveRecord request.val record with
    | returned item => exact .refl _ _
    | thrown failure => exact .refl _ _
    | recording => exact hrecording
    | _ =>
      unfold resolveRecord at hresolve
      split at hresolve
      · cases hresolve
      · cases hresolve
      · split at hresolve <;> cases hresolve

/-- Where the process of a cancellation ends. -/
def cancelEnded : Outcome → Cancelling
  | .returned item => .returned item
  | .thrown failure => .thrown failure

theorem unlocking_alone (store : OrdersStore) (request : CancelOrderRequest) (updated : Order) :
    ordersSystem.Reaches p ⟨store, LockTable.free⟩ (.cancelling request (.unlocking updated))
      ⟨{ store with
          balanceRequests := store.balanceRequests ++ unlockRequests request updated },
        LockTable.free⟩
      (.cancelling request (.returned (mapOrderToItem updated))) := by
  unfold unlockRequests
  split
  · next hamount =>
    have hsend : ordersSystem.step p ⟨store, LockTable.free⟩
        (.cancelling request (.unlocking updated)) .statement =
          some (send ⟨store, LockTable.free⟩ (unlockRequest request updated),
            .cancelling request (.awaitingUnlock updated)) := by
      simp only [ordersSystem, step, cancellingStep, hamount, Option.map_some]
    exact .step hsend (.of_step (a := .reply .ok) rfl)
  · next hamount =>
    rw [List.append_nil]
    refine .of_step (a := .statement) ?_
    simp only [ordersSystem, step, cancellingStep]
    rfl

/-- The transaction of a cancellation and its unlock. -/
theorem updating_alone_cancelled (store : OrdersStore) {request : CancelOrderRequest}
    {order : Order} (hcancellable : cancellableOrder store.db request = some order)
    (levelTotalQuantity : ℤ) (sequenceId : ℕ) :
    ordersSystem.Reaches p ⟨store, LockTable.free⟩
      (.cancelling request (.updating levelTotalQuantity sequenceId))
      ⟨{ store with
          db := store.db.install [{ order with status := .cancelled }]
            [orderCancelledEvent { order with status := .cancelled } levelTotalQuantity sequenceId]
          balanceRequests := store.balanceRequests ++
            unlockRequests request { order with status := .cancelled } }, LockTable.free⟩
      (.cancelling request (.returned (mapOrderToItem { order with status := .cancelled }))) := by
  have havailable : (LockTable.free : LockTable Uuid).Available p request.orderId := Or.inl rfl
  have hupdate : ordersSystem.step p ⟨store, LockTable.free⟩
      (.cancelling request (.updating levelTotalQuantity sequenceId)) .statement =
        some (takeLock p ⟨store, LockTable.free⟩ request.orderId, .cancelling request
          (.recording { order with status := .cancelled } levelTotalQuantity sequenceId)) := by
    simp only [ordersSystem, step, cancellingStep, hcancellable, havailable, if_true,
      Option.map_some]
  have hlocked : ((LockTable.free : LockTable Uuid).acquire p request.orderId).release p =
      LockTable.free := ((LockTable.onlyHeldBy_free p).acquire _).release
  have hcommit : ordersSystem.step p (takeLock p ⟨store, LockTable.free⟩ request.orderId)
      (.cancelling request (.committing { order with status := .cancelled }
        (orderCancelledEvent { order with status := .cancelled } levelTotalQuantity sequenceId)))
      .statement = some (⟨{ store with
          db := store.db.install [{ order with status := .cancelled }]
            [orderCancelledEvent { order with status := .cancelled } levelTotalQuantity
              sequenceId] }, LockTable.free⟩,
        .cancelling request (.unlocking { order with status := .cancelled })) := by
    simp only [ordersSystem, step, cancellingStep, commit, takeLock, hlocked, Option.map_some]
  exact .step hupdate (.step (a := .statement) rfl (.step hcommit (unlocking_alone ..)))

/-- What is found of the order decides the first statement of a cancellation. -/
theorem finding_alone (store : OrdersStore) (request : CancelOrderRequest) :
    (∀ exception, findCancellable store request = .error exception →
      ordersSystem.step p ⟨store, LockTable.free⟩ (.cancelling request .finding) .statement =
        some (⟨store, LockTable.free⟩, .cancelling request (.thrown (.rpc exception)))) ∧
      ∀ order, findCancellable store request = .ok order →
        ordersSystem.step p ⟨store, LockTable.free⟩ (.cancelling request .finding) .statement =
          some (⟨store, LockTable.free⟩, .cancelling request (.removing order)) := by
  simp only [ordersSystem, step, cancellingStep, findCancellable]
  cases store.db.findByIdAndUserId request.orderId request.userId with
  | none =>
    refine ⟨fun exception h => ?_, fun order h => ?_⟩ <;> cases h
    rfl
  | some row =>
    by_cases hcancelled : row.status = .cancelled
    · simp only [if_pos hcancelled]
      refine ⟨fun exception h => ?_, fun order h => ?_⟩ <;> cases h
      rfl
    · by_cases hfilled : row.status = .filled
      · simp only [if_neg hcancelled, if_pos hfilled]
        refine ⟨fun exception h => ?_, fun order h => ?_⟩ <;> cases h
        rfl
      · simp only [if_neg hcancelled, if_neg hfilled]
        refine ⟨fun exception h => ?_, fun order h => ?_⟩ <;> cases h
        rfl

theorem cancelOrder_alone (store : OrdersStore) (request : CancelOrderRequest) :
    ordersSystem.Reaches p ⟨store, LockTable.free⟩ (.cancelling request .finding)
      ⟨(cancelOrder store request).1, LockTable.free⟩
      (.cancelling request (cancelEnded (cancelOrder store request).2)) := by
  have hfree : (LockTable.free : LockTable Uuid).release p = LockTable.free :=
    (LockTable.onlyHeldBy_free p).release
  cases hfind : findCancellable store request with
  | error exception =>
    simp only [cancelOrder, hfind]
    exact .of_step ((finding_alone store request).1 exception hfind)
  | ok order =>
    have hfinding := (finding_alone (p := p) store request).2 order hfind
    refine .step hfinding (.step (a := .statement) rfl (.step (a := .statement) rfl
      (.step (a := .statement) rfl (.step (a := .statement) rfl ?_))))
    simp only [cancelOrder, hfind]
    cases hcancellable : cancellableOrder store.db request with
    | none =>
      refine .of_step (a := .statement) ?_
      simp only [ordersSystem, step, cancellingStep, setValkey, hcancellable, Option.map_some,
        rollback, hfree]
      rfl
    | some row =>
      exact updating_alone_cancelled { store with valkey := ((store.valkey.removeOrder
        request.orderId order.pair order.side).nextSequence order.pair).1 } hcancellable _ _

/-! ### Schedules -/

/-- In the system of all processes a schedule takes a call from its start to what the function
says, while the other processes wait. -/
theorem exists_exec_createOrder {c : OrdersConfig} (hfree : c.shared.locks = LockTable.free)
    (hcall : c.procs p = .creating request .checking) (ids : NewIds) (lockReply : BalanceReply) :
    ∃ actions : List Action, ordersSystem.exec c (actions.map fun a => ⟨p, a⟩) =
      some ⟨⟨(createOrder c.shared.store request.val ids lockReply).1, LockTable.free⟩,
        Function.update c.procs p
          (.creating request (ended (createOrder c.shared.store request.val ids lockReply).2))⟩ := by
  have halone := @createOrder_alone p c.shared.store request ids lockReply
  have hshared : (⟨c.shared.store, LockTable.free⟩ : Shared) = c.shared := by rw [← hfree]
  rw [hshared, ← hcall] at halone
  exact halone.exec

theorem exists_exec_cancelOrder {c : OrdersConfig} (hfree : c.shared.locks = LockTable.free)
    {request : CancelOrderRequest} (hcall : c.procs p = .cancelling request .finding) :
    ∃ actions : List Action, ordersSystem.exec c (actions.map fun a => ⟨p, a⟩) =
      some ⟨⟨(cancelOrder c.shared.store request).1, LockTable.free⟩,
        Function.update c.procs p
          (.cancelling request (cancelEnded (cancelOrder c.shared.store request).2))⟩ := by
  have halone := @cancelOrder_alone p c.shared.store request
  have hshared : (⟨c.shared.store, LockTable.free⟩ : Shared) = c.shared := by rw [← hfree]
  rw [hshared, ← hcall] at halone
  exact halone.exec

end EtherTrade.OrdersRunAlone
