import EtherTrade.CopiedOrders
import EtherTrade.CopyCoverageLaws

/-!
# The copy history tells the truth about orders

A completed row references an order of the follower with the values of the row, and no other
completed row references it. This holds where a call that finds a completed record of its
key is answered with what it asked for, and with an order that no other copy was given. The
key of a copied order names the trade and the follower alone, and the orders service compares
the request with the record only where the record has failed.
-/

namespace EtherTrade.CopiedOrderLaws

open DecimalNumbers KeyedRows AccountsSchema CopyTradingSchema InterleavedProcesses
open OrdersSchema hiding TradeExecutedEvent
open MasterTradeReplication MasterTradeReplicationSteps CopyHistory CopiedOrders
open OrderResponses CopyCoverageLaws

variable {s s' : CopyStore} {task : ReplicationSideTask} {subscriber : CopySubscription}
  {copying : Copying} {lockToken : Uuid} {new : NewCopyOrderHistory} {newId : Uuid}
  {l l' : Process} {action : Action} {request : CreateOrderRequest} {item : OrderItem}
  {row : CopyOrderHistory} {c d : CopyConfig} {e : Event Action} {es : List (Event Action)}

/-! ### Rows -/

/-- The row was made from an answer to its copy. -/
structure RecordOf (s : CopyStore) (row : CopyOrderHistory) (request : CreateOrderRequest)
    (item : OrderItem) : Prop where
  orderId : row.followerOrderId = some item.orderId
  given : Given s row.copy request item
  pair : row.pair = request.pair
  side : row.masterSide = request.side
  quantity : Numeric.ofBigNumber request.amount.value = some row.replicatedQuantity
  price : Numeric.ofBigNumber request.price.value = some row.replicatedPrice
  follower : ∃ subscription ∈ s.db.copySubscriptions, subscription.id = row.subscriptionId ∧
    subscription.followerUserId = request.userId

/-- Completed rows were made from answers to their copies. -/
def RowsTold (s : CopyStore) : Prop :=
  ∀ row ∈ s.db.copyOrdersHistory, row.status = .completed →
    ∃ request item, RecordOf s row request item

theorem RecordOf.kept (hkept : Kept s s') (h : RecordOf s row request item) :
    RecordOf s' row request item := by
  refine ⟨h.orderId, h.given.kept hkept, h.pair, h.side, h.quantity, h.price, ?_⟩
  obtain ⟨subscription, hmem, hid, hfollower⟩ := h.follower
  obtain ⟨subscription', hmem', hid', hfollows⟩ := hkept.subscriptions.rows subscription hmem
  have hsame : subscription'.followerUserId = subscription.followerUserId :=
    congrArg Prod.fst hfollows
  exact ⟨subscription', hmem', hid'.trans hid, hsame.trans hfollower⟩

/-- The row that a worker inserts for an order was made from its answer. -/
theorem recordOf_pending (hknown : Known s.db subscriber)
    (hknows : Knows s task subscriber (.holding lockToken copying))
    (hrecord : pendingRecord task subscriber copying = some new)
    (hrow : new.toRow newId = some row) (hstatus : row.status = .completed) :
    ∃ request item, RecordOf s row request item := by
  have hend : new.status = .completed := (toRow_copy hrow).2.symm.trans hstatus
  cases copying with
  | completing request followerOrderId =>
    obtain ⟨⟨amount, rfl⟩, item, hgiven, rfl⟩ := hknows
    obtain ⟨subscription, hmem, hid, hfollows⟩ := hknown
    cases hrecord
    simp only [NewCopyOrderHistory.toRow, Option.bind_eq_bind, Option.bind_eq_some_iff,
      Option.pure_def, Option.some.injEq] at hrow
    obtain ⟨quantity, hquantity, price, hprice, rfl⟩ := hrow
    exact ⟨_, item, rfl, hgiven, rfl, rfl, hquantity, hprice, subscription, hmem, hid,
      congrArg Prod.fst hfollows⟩
  | skipping quantity =>
    cases hrecord
    cases hend
  | failing request reason =>
    cases hrecord
    cases hend
  | _ => cases hrecord

/-- What a process knows of those it replicates to. -/
structure Informed (s : CopyStore) (l : Process) : Prop where
  pending : ∀ subscriber ∈ pendingOf l, Known s.db subscriber
  workers : ∀ i task worker, workerOf l i = some (task, worker) →
    Knows s task worker.subscriber worker.progress

theorem Informed.kept (hstarted : Started s) (hkept : Kept s s') (h : Informed s l) :
    Informed s' l where
  pending subscriber hsub := (h.pending subscriber hsub).kept hkept.subscriptions
  workers i task worker hworker := (h.workers i task worker hworker).kept hstarted hkept

theorem informed_step (hstarted : Started s) (h : Informed s l)
    (hstep : step s l action = some (s', l')) : Informed s' l' := by
  have hkept := kept_step hstarted hstep
  refine ⟨fun subscriber hsub => ?_, fun i task worker' hworker => ?_⟩
  · rcases pending_step hstep hsub with hold | hread
    · exact (h.pending subscriber hold).kept hkept.subscriptions
    · exact Known.kept hkept.subscriptions ⟨subscriber, hread, rfl, rfl⟩
  · rcases worker_step hstep hworker with ⟨hold, -⟩ | hnew | ⟨worker, workerAction, masterBalance, -,
      hold, -, hsub, hreplicate⟩
    · exact (h.workers i task worker' hold).kept hstarted hkept
    · rw [hnew]
      trivial
    · rw [hsub]
      exact knows_worker (h.workers i task worker hold) (replicateStep_cases hreplicate)

theorem rowsTold_step (hstarted : Started s) (hrows : RowsTold s) (h : Informed s l)
    (hstep : step s l action = some (s', l')) : RowsTold s' := by
  have hkept := kept_step hstarted hstep
  intro row hrow hstatus
  have hold (hrow : row ∈ s.db.copyOrdersHistory) :
      ∃ request item, RecordOf s' row request item := by
    obtain ⟨request, item, hrecord⟩ := hrows row hrow hstatus
    exact ⟨request, item, hrecord.kept hkept⟩
  rcases history_step hstep with hsame | ⟨i, task, worker, lockToken, copying, new, newId, -,
    hworker, hprogress, hrecord, hcreate⟩
  · exact hold (hsame ▸ hrow)
  · rcases createHistory_cases hcreate with ⟨hdb, -⟩ | ⟨row', hrow', -, hdb⟩ <;> rw [hdb] at hrow
    · exact hold hrow
    · rcases List.mem_append.mp hrow with hmem | hnew
      · exact hold hmem
      · obtain rfl := List.mem_singleton.mp hnew
        have hknows := h.workers i task worker hworker
        rw [hprogress] at hknows
        have hknown := h.pending worker.subscriber (subscriber_mem_pending hworker)
        obtain ⟨request, item, hmade⟩ :=
          recordOf_pending hknown hknows hrecord hrow' hstatus
        exact ⟨request, item, hmade.kept hkept⟩

/-! ### Runs -/

/-- What holds of all orders, rows and workers. -/
structure AllTold (c : CopyConfig) : Prop where
  traced : Traced c.shared
  ids : KeyUnique CopySubscription.id c.shared.db.copySubscriptions
  history : WellKept c.shared.db
  rows : RowsTold c.shared
  processes : ∀ p, Informed c.shared (c.procs p)

theorem allTold_next (hc : AllTold c) (hkind : AnsweredInKind c.shared e.action)
    (hnext : replicationSystem.next c e = some d) : AllTold d := by
  obtain ⟨s', l', hstep, rfl⟩ := System.next_eq_some.mp hnext
  have hstarted := hc.traced.started
  have hkept : Kept c.shared s' := kept_step hstarted hstep
  refine ⟨traced_step hc.traced hkind hstep, hkept.subscriptions.ids hc.ids,
    wellKept_step hc.history hstep, rowsTold_step hstarted hc.rows (hc.processes e.proc) hstep,
    fun p => ?_⟩
  by_cases hp : p = e.proc
  · subst hp
    simpa using informed_step hstarted (hc.processes e.proc) hstep
  · simpa only [Function.update_of_ne hp] using (hc.processes p).kept hstarted hkept

theorem not_given_initial : ¬Given initial.shared copy request item := by
  rintro ⟨call, valid, hcall, -⟩
  cases hcall

theorem allTold_initial : AllTold initial where
  traced := {
    responding := responding_initial
    started _ _ hcall := nomatch hcall
    carried _ _ _ hgiven := absurd hgiven not_given_initial
    once _ _ _ _ _ _ hgiven := absurd hgiven not_given_initial }
  ids := keyUnique_nil
  history := wellKept_empty
  rows _ hrow := absurd hrow List.not_mem_nil
  processes _ := ⟨fun _ h => absurd h List.not_mem_nil, fun _ _ _ h => nomatch h⟩

/-- The row references an order of the follower of its subscription, with the values of the
row. -/
def Truthful (s : CopyStore) (row : CopyOrderHistory) : Prop :=
  ∃ orderId order subscription, row.followerOrderId = some orderId ∧
    s.orders.shared.store.db.findById orderId = some order ∧
    lookup CopySubscription.id s.db.copySubscriptions row.subscriptionId = some subscription ∧
    order.userId = subscription.followerUserId ∧ order.pair = row.pair ∧
    order.side = row.masterSide ∧ row.replicatedQuantity = .units order.amount ∧
    row.replicatedPrice = .units order.price

/-- Completed rows are truthful, and no two reference one order. -/
structure HistoryTrue (s : CopyStore) : Prop where
  truthful : ∀ row ∈ s.db.copyOrdersHistory, row.status = .completed → Truthful s row
  once : ∀ row ∈ s.db.copyOrdersHistory, ∀ other ∈ s.db.copyOrdersHistory,
    row.status = .completed → other.status = .completed →
      row.followerOrderId = other.followerOrderId → row = other

/-- What a column stores of a number, if the number is finite. -/
theorem ofBigNumber_of_toColumn {n : BigNumber} {units : ℤ} {column : Numeric}
    (hunits : n.toColumn = some units) (h : Numeric.ofBigNumber n = some column) :
    column = .units units := by
  cases n with
  | nan => cases hunits
  | finite q =>
    rw [Numeric.ofBigNumber, hunits, Option.map_some] at h
    · exact (Option.some.inj h).symm
    · exact fun h => BigNumber.noConfusion h
  | infinite negative => cases hunits

/-- The order that a call was given is there, with the user and the values of its request. -/
theorem order_of_given (htraced : Traced s) (hgiven : Given s copy request item) :
    ∃ order, s.orders.shared.store.db.findById item.orderId = some order ∧
      order.userId = request.userId ∧ Carries request (mapOrderToItem order) := by
  have hcarries := htraced.carried copy request item hgiven
  obtain ⟨call, valid, -, hreturned, rfl⟩ := hgiven
  have hresponds : Responds s.orders.shared.store.db (.creating valid (.returned item)) :=
    hreturned ▸ htraced.responding.calls call
  obtain ⟨⟨terms, hterms, hkey, hitem⟩, -⟩ := hresponds
  obtain ⟨order, horder, rfl⟩ := Option.map_eq_some_iff.mp hterms
  have huser : order.userId = valid.val.userId := congrArg Prod.fst hkey
  exact ⟨order, horder, huser, hcarries.congr hitem.symm⟩

theorem AllTold.historyTrue (hc : AllTold c) : HistoryTrue c.shared := by
  constructor
  · intro row hrow hstatus
    obtain ⟨request, item, hrecord⟩ := hc.rows row hrow hstatus
    obtain ⟨order, horder, huser, hcarries⟩ := order_of_given hc.traced hrecord.given
    obtain ⟨subscription, hmem, hid, hfollower⟩ := hrecord.follower
    refine ⟨item.orderId, order, subscription, hrecord.orderId, horder,
      (lookup_eq_some hc.ids).mpr ⟨hmem, hid⟩, huser.trans hfollower.symm,
      hcarries.pair.trans hrecord.pair.symm, hcarries.side.trans hrecord.side.symm, ?_, ?_⟩
    · exact ofBigNumber_of_toColumn hcarries.amount hrecord.quantity
    · exact ofBigNumber_of_toColumn hcarries.price hrecord.price
  · intro row hrow other hother hstatus hstatus' hsame
    obtain ⟨request, item, hrecord⟩ := hc.rows row hrow hstatus
    obtain ⟨request', item', hrecord'⟩ := hc.rows other hother hstatus'
    have hid : item'.orderId = item.orderId := by
      rw [hrecord.orderId, hrecord'.orderId] at hsame
      exact (Option.some.inj hsame).symm
    have hcopy := hc.traced.once _ _ _ _ _ _ hrecord.given hrecord'.given hid
    exact hc.history.unique.eq hrow hother hcopy.symm

/-- In a run in which completed records answer the calls of copies in kind, the history tells
the truth about orders. -/
theorem history_true (es : List (Event Action)) (d : CopyConfig)
    (h : replicationSystem.Run (fun c e => AnsweredInKind c.shared e.action) initial es d) :
    HistoryTrue d.shared :=
  (h.invariant allTold_initial fun _ _ _ hc hkind hnext =>
    allTold_next hc hkind hnext).historyTrue

/-! ### Runs of one subscriber -/

/-- The guard, checked on a transition whose call finds no record. -/
def findsNoRecord (t : System.Transition CopyStore Process Action) : Bool :=
  match t.event.action with
  | .orders ⟨call, _⟩ =>
    match t.before.shared.orders.procs call with
    | .creating valid .checking =>
      (t.before.shared.orders.shared.store.db.findRecord t.before.shared.now valid.val.userId
        OrdersTransactions.createOrderOperation valid.val.idempotencyKey).isNone
    | _ => true
  | _ => true

theorem findsNoRecord_spec {t : System.Transition CopyStore Process Action}
    (h : findsNoRecord t = true) : AnsweredInKind t.before.shared t.event.action := by
  intro call copy valid record item haction hcall hchecking hfound
  simp only [findsNoRecord, haction, hchecking, hfound, Option.isNone_some] at h
  cases h

/-- A worker locks its follower, sizes the copy and calls the orders service. -/
def order (p call : ℕ) (lockToken : Uuid) : List (Event Action) :=
  perform p [.worker 0 (.acquire lockToken), .worker 0 .statement, .worker 0 (.call call)]

/-- The steps of a call that places its order in an empty book. -/
def placing : List OrdersTransactions.Action :=
  [.statement, .insert "record", .statement, .reply .ok, .insert "order"] ++
    List.replicate 11 .statement

/-- A call acts in the orders service. -/
def serve (call : ℕ) (actions : List OrdersTransactions.Action) : List (Event Action) :=
  perform 9 (actions.map fun action => .orders ⟨call, action⟩)

/-- A worker is answered and records its order, and the message is done. -/
def recorded (p : ℕ) : List (Event Action) :=
  perform p [.worker 0 .reply, .worker 0 (.insert "row"), .worker 0 .statement, .heartbeat,
    .statement]

/-- A trade is copied. -/
def copiedTrade : List (Event Action) :=
  followed ++ takeUp 0 "trade" 1000 ++ order 0 0 "token" ++ serve 0 placing ++ recorded 0

/-- The history, and the amount of the order. -/
def told (c : CopyConfig) : List CopyOrderHistory × Option ℤ :=
  (c.shared.db.copyOrdersHistory,
    (c.shared.orders.shared.store.db.findById "order").map Order.amount)

/-- The row of the trade, copied as so many units. -/
def copiedRow (quantity : ℤ) : CopyOrderHistory where
  id := "row"
  subscriptionId := "sub"
  masterTradeId := "trade"
  followerOrderId := some "order"
  pair := ⟨.eth, .usdt⟩
  masterSide := .buy
  replicatedQuantity := .units quantity
  replicatedPrice := .units (101 * 10 ^ 8)
  status := .completed
  failureReason := none

theorem copiedTrade_executes :
    (replicationSystem.exec initial copiedTrade).map told =
        some ([copiedRow (2 * 10 ^ 7)], some (2 * 10 ^ 7)) ∧
      (replicationSystem.transitions initial copiedTrade).all findsNoRecord = true := by
  decide +kernel

theorem history_true_copiedTrade : ∃ d, replicationSystem.exec initial copiedTrade = some d ∧
    told d = ([copiedRow (2 * 10 ^ 7)], some (2 * 10 ^ 7)) ∧ HistoryTrue d.shared := by
  obtain ⟨d, hexec, htold⟩ := Option.map_eq_some_iff.mp copiedTrade_executes.1
  exact ⟨d, hexec, htold, history_true copiedTrade d
    (.of_check hexec copiedTrade_executes.2 fun _ => findsNoRecord_spec)⟩

/-- A consumer stops before its call is answered. The lock expires, the master's funds change,
and the message is delivered again: the call is answered with the order of the first. -/
def redelivered : List (Event Action) :=
  followed ++ takeUp 0 "trade" 1000 ++ order 0 0 "token" ++ serve 0 placing ++
    perform 0 [.stop] ++ serve 5 [.passTime 10000] ++ takeUp 1 "trade" 500 ++
      order 1 1 "other" ++ serve 1 [.statement] ++ recorded 1

theorem redelivered_executes : (replicationSystem.exec initial redelivered).map told =
    some ([copiedRow (4 * 10 ^ 7)], some (2 * 10 ^ 7)) := by
  decide +kernel

/-- The row says four tenths, and its order is over two tenths. -/
theorem untrue_redelivered :
    ¬∀ es d, replicationSystem.exec initial es = some d → HistoryTrue d.shared := by
  intro hall
  obtain ⟨d, hexec, hd⟩ := Option.map_eq_some_iff.mp redelivered_executes
  obtain ⟨hhistory, hamount⟩ := Prod.mk.inj hd
  have hrow : copiedRow (4 * 10 ^ 7) ∈ d.shared.db.copyOrdersHistory := by
    rw [hhistory]
    exact List.mem_cons_self
  obtain ⟨orderId, order, subscription, hid, horder, -, -, -, -, hquantity, -⟩ :=
    (hall redelivered d hexec).truthful _ hrow rfl
  obtain rfl : "order" = orderId := Option.some.inj hid
  rw [horder, Option.map_some] at hamount
  have hunits : 4 * 10 ^ 7 = order.amount := Numeric.units.inj hquantity
  rw [← hunits] at hamount
  cases hamount

end EtherTrade.CopiedOrderLaws
