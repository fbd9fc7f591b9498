import EtherTrade.CopiedSellLaws
import EtherTrade.OrderFillLaws

/-!
# Copied positions and holdings

The history counts an order with its whole amount as soon as it is placed. Where an order is
recorded only when it has been filled, and nothing is traded for it afterwards, the position
of a subscription is what was bought less what was sold through its orders.
-/

namespace EtherTrade.CopiedHoldingLaws

open DecimalNumbers KeyedRows AccountsSchema OrdersSchema CopyTradingSchema InterleavedProcesses
open MasterTradeReplication MasterTradeReplicationSteps CopyHistory CopiedOrders CopiedOrderLaws
open CopyCoverageLaws CopiedPositions CopiedSellLaws FollowerLocks CopyRatioCalculator
open OrderFillLaws (tradedQuantity tradedQuantity_append tradedQuantity_eq_zero)
open OrdersTransactions (OrdersConfig ordersSystem)
open TradeSettlement (TradingSymbol)

variable {s s' : CopyStore} {task : ReplicationSideTask} {subscriber : CopySubscription}
  {copying : Copying} {new : NewCopyOrderHistory} {newId : Uuid} {row : CopyOrderHistory}
  {l l' : Process} {action : Action} {c d : CopyConfig} {e : Event Action}
  {es : List (Event Action)}

/-! ### Holdings -/

def ordersDb (s : CopyStore) : OrdersDb := s.orders.shared.store.db

/-- The orders of one side that the rows of a subscription reference. -/
def referencedOrders (s : CopyStore) (subscriptionId : Uuid) (pair : TradingSymbol)
    (side : OrderSide) : List Order :=
  (ordersDb s).orders.filter fun order => order.pair = pair ∧ order.side = side ∧
    ∃ row ∈ s.db.copyOrdersHistory, row.subscriptionId = subscriptionId ∧
      row.followerOrderId = some order.id

/-- What was traded for them. -/
def tradedThrough (s : CopyStore) (subscriptionId : Uuid) (pair : TradingSymbol)
    (side : OrderSide) : ℤ :=
  ((referencedOrders s subscriptionId pair side).map fun order =>
    tradedQuantity (ordersDb s).trades order.id).sum

/-- What was bought through the orders of a subscription and has not been sold. -/
def holdings (s : CopyStore) (subscriptionId : Uuid) (pair : TradingSymbol) : ℤ :=
  tradedThrough s subscriptionId pair .buy - tradedThrough s subscriptionId pair .sell

/-- The position that sales are sized on. -/
def subPosition (db : CopyTradingDb) (subscriptionId : Uuid) (pair : TradingSymbol) :
    NumberText :=
  let subPos := db.getSubscriptionPosition subscriptionId pair
  calculateSubPosition subPos.1 subPos.2

/-- Positions are holdings, and no sale is sized beyond them. -/
structure PositionsHeld (s : CopyStore) : Prop where
  position : ∀ subscriptionId pair, (subPosition s.db subscriptionId pair).value =
    .finite ((holdings s subscriptionId pair : ℚ) / scale)
  sized : ∀ task masterBalance subscriber q, task.side = .sell →
    (targetQuantity s task masterBalance subscriber).value = .finite q →
      q ≤ (holdings s subscriber.id task.pair : ℚ) / scale

/-! ### Trades -/

/-- The trades that a step of the orders service commits. -/
def committing (s : CopyStore) : Action → List TradeExecutedEvent
  | .orders ⟨_, .abort⟩ => []
  | .orders ⟨call, _⟩ =>
    match s.orders.procs call with
    | .creating _ (.placing _ (.active w .committing)) => w.outboxList.filterMap OutboxEvent.trade
    | _ => []
  | _ => []

/-- Cancellations commit no trades. -/
def CancelsOnly (c : OrdersConfig) : Prop :=
  ∀ p request updated event, c.procs p = .cancelling request (.committing updated event) →
    event.trade = none

theorem cancelsOnly_next {c d : OrdersConfig} {e : Event OrdersTransactions.Action}
    (hc : CancelsOnly c) (h : ordersSystem.next c e = some d) : CancelsOnly d := by
  intro p request updated event hp
  by_cases hproc : p = e.proc
  · subst hproc
    obtain ⟨s, l, hstep, rfl⟩ := System.next_eq_some.mp h
    simp only [Function.update_self] at hp
    subst hp
    have hprocess := OrdersTransactionSteps.step_cases hstep
    generalize c.procs e.proc = l at hprocess
    generalize e.action = action at hprocess
    cases hprocess with
    | quiet _ _ _ hinert => exact hinert.elim
    | recorded => rfl
    | cancelled hinert => exact hinert.elim
  · rw [System.next_procs_of_ne h hproc] at hp
    exact hc p request updated event hp

/-- The call has yet to commit the trades of a transaction. -/
def Commits (l : OrdersTransactions.Process) (w : MatchingEngine.UnitOfWork) : Prop :=
  ∃ request recordId, l = .creating request (.placing recordId (.active w .committing))

/-- Only the transaction of a new order commits trades. -/
theorem trades_of_not_commits {p : ℕ} {s s' : OrdersTransactions.Shared}
    {l l' : OrdersTransactions.Process} {action : OrdersTransactions.Action}
    (hcancels : ∀ request updated event, l = .cancelling request (.committing updated event) →
      event.trade = none)
    (hcommits : ∀ w, ¬Commits l w) (h : OrdersTransactionSteps.ProcessStep p s l action s' l') :
    s'.store.db.trades = s.store.db.trades := by
  cases h with
  | quiet _ hevents => rw [OrdersDb.trades, hevents, OrdersDb.trades]
  | @placed request recordId w point _ _ _ hstep =>
    cases hstep with
    | quiet hdb => rw [hdb]
    | committed => exact absurd ⟨request, recordId, rfl⟩ (hcommits w)
    | _ => rfl
  | @cancelled request updated event _ _ hinert =>
    have hnone : [event].filterMap OutboxEvent.trade = [] :=
      List.filterMap_cons_none (hcancels request updated event rfl)
    change (s.store.db.install [updated] [event]).trades = s.store.db.trades
    rw [OrdersTransactionInvariants.trades_install, hnone, List.append_nil]
  | _ => rfl

/-- A step of the orders service adds the trades that it commits. -/
theorem trades_next {d : OrdersConfig} {e : Event OrdersTransactions.Action}
    (hc : CancelsOnly s.orders) (h : ordersSystem.next s.orders e = some d) :
    d.shared.store.db.trades = (ordersDb s).trades ++ committing s (.orders e) := by
  obtain ⟨proc, action⟩ := e
  obtain ⟨shared, l, hstep, rfl⟩ := System.next_eq_some.mp h
  change OrdersTransactions.step proc s.orders.shared (s.orders.procs proc) action =
    some (shared, l) at hstep
  by_cases hcommits : ∃ w, Commits (s.orders.procs proc) w
  · obtain ⟨w, request, recordId, hproc⟩ := hcommits
    rw [hproc] at hstep
    obtain ⟨⟨shared', progress⟩, hcreating, hr⟩ := Option.map_eq_some_iff.mp hstep
    cases hr
    obtain ⟨⟨shared'', placing⟩, hactive, hr⟩ := Option.map_eq_some_iff.mp hcreating
    cases hr
    cases action with
    | statement =>
      cases hactive
      simp only [committing, hproc]
      exact OrdersTransactionInvariants.trades_install
    | commitUnacknowledged =>
      cases hactive
      simp only [committing, hproc]
      exact OrdersTransactionInvariants.trades_install
    | abort =>
      cases hactive
      exact (List.append_nil _).symm
    | _ => cases hactive
  · have hnone : committing s (.orders ⟨proc, action⟩) = [] := by
      unfold committing
      split
      · rfl
      · next heq =>
        cases heq
        split
        · next request recordId w hproc => exact absurd ⟨w, request, recordId, hproc⟩ hcommits
        · rfl
      · rfl
    rw [hnone, List.append_nil]
    exact trades_of_not_commits (hc proc) (fun w hw => hcommits ⟨w, hw⟩)
      (OrdersTransactionSteps.step_cases hstep)

/-! ### Runs -/

/-- The order is filled: what was traded for it is its amount. -/
def IsFilled (db : OrdersDb) (orderId : Uuid) : Prop :=
  ∀ order, db.findById orderId = some order → tradedQuantity db.trades orderId = order.amount

/-- An order is recorded as completed only when it is filled, and no trade of a recorded
order is committed. A call that finds a completed record is answered in kind. -/
structure CountedWhenFilled (c : CopyConfig) (e : Event Action) : Prop where
  kind : AnsweredInKind c.shared e.action
  filled : ∀ i task worker lockToken request followerOrderId, Inserts e.action i →
    workerOf (c.procs e.proc) i = some (task, worker) →
      worker.progress = .holding lockToken (.completing request followerOrderId) →
        IsFilled (ordersDb c.shared) followerOrderId
  settled : ∀ trade ∈ committing c.shared e.action, ∀ row ∈ c.shared.db.copyOrdersHistory,
    ∀ orderId, row.followerOrderId = some orderId → ¬trade.Names orderId

/-- Rows that reference an order are completed, and count what was traded for it. -/
structure Counting (c : CopyConfig) : Prop where
  told : AllTold c
  cancels : CancelsOnly c.shared.orders
  referenced : ∀ row ∈ c.shared.db.copyOrdersHistory, row.followerOrderId ≠ none →
    row.status = .completed
  filled : ∀ row ∈ c.shared.db.copyOrdersHistory, ∀ orderId, row.followerOrderId = some orderId →
    IsFilled (ordersDb c.shared) orderId

theorem cancelsOnly_step (hs : CancelsOnly s.orders) (hstep : step s l action = some (s', l')) :
    CancelsOnly s'.orders := by
  cases ordersEffect_step hstep with
  | kept horders hcalls => rwa [horders]
  | event e haction hnext hcalls => exact cancelsOnly_next hs hnext
  | called call copy request hidle hnext hcalls => exact cancelsOnly_next hs hnext

theorem next_of_step {e : Event OrdersTransactions.Action}
    (hstep : step s l (.orders e) = some (s', l')) :
    ordersSystem.next s.orders e = some s'.orders := by
  cases l with
  | idle =>
    obtain ⟨orders, hnext, hr⟩ := Option.map_eq_some_iff.mp hstep
    cases hr
    exact hnext
  | handling h =>
    obtain ⟨r, hhandle, -⟩ := Option.map_eq_some_iff.mp hstep
    generalize h.point = point at hhandle
    cases point <;> cases hhandle
  | _ => cases hstep

theorem trades_step (hs : CancelsOnly s.orders) (hstep : step s l action = some (s', l')) :
    (ordersDb s').trades = (ordersDb s).trades ++ committing s action := by
  by_cases horders : ∃ e, action = .orders e
  · obtain ⟨e, rfl⟩ := horders
    exact trades_next hs (next_of_step hstep)
  · have hnone : committing s action = [] := by
      unfold committing
      split
      · exact absurd ⟨_, rfl⟩ horders
      · exact absurd ⟨_, rfl⟩ horders
      · rfl
    rw [hnone, List.append_nil]
    cases ordersEffect_step hstep with
    | kept hkept hcalls => rw [ordersDb, hkept, ordersDb]
    | event e haction hnext hcalls => exact absurd ⟨e, haction⟩ horders
    | called call copy request hidle hnext hcalls =>
      have hcommits : committing s (.orders ⟨call, .createOrder request⟩) = [] := by
        simp only [committing, hidle]
      have htrades := trades_next hs hnext
      rwa [hcommits, List.append_nil] at htrades

/-- An insert leaves the orders service alone. -/
theorem orders_of_inserts {i : ℕ} (hstep : step s l action = some (s', l'))
    (hinserts : Inserts action i) : s'.orders = s.orders := by
  have heffect := step_cases hstep
  obtain ⟨newId, hinsert⟩ := hinserts
  cases heffect with
  | world hhistory hsubscriptions horders => exact horders
  | orders => rcases hinsert with h | h <;> cases h
  | message heffect => cases heffect <;> rfl
  | @worker _ _ _ _ _ _ worker workerAction _ _ hpoint hworker hreplicate =>
    have heffect := replicateStep_cases hreplicate
    generalize worker.progress = progress at heffect
    cases heffect with
    | copied heffect =>
      cases heffect with
      | called => rcases hinsert with h | h <;> cases h
      | _ => rfl
    | _ => rfl
  | _ => rfl

/-- A pending row that references an order is completed. -/
theorem pendingRecord_referenced (hrecord : pendingRecord task subscriber copying = some new)
    (hrow : new.toRow newId = some row) (horder : row.followerOrderId ≠ none) :
    ∃ request followerOrderId, copying = .completing request followerOrderId ∧
      row.followerOrderId = some followerOrderId ∧ row.status = .completed := by
  simp only [NewCopyOrderHistory.toRow, Option.bind_eq_bind, Option.bind_eq_some_iff,
    Option.pure_def, Option.some.injEq] at hrow
  obtain ⟨quantity, -, price, -, rfl⟩ := hrow
  cases copying with
  | completing request followerOrderId =>
    cases hrecord
    exact ⟨request, followerOrderId, rfl, rfl, rfl⟩
  | skipping quantity =>
    cases hrecord
    exact absurd rfl horder
  | failing request reason =>
    cases hrecord
    exact absurd rfl horder
  | _ => cases hrecord

/-- The trades of a recorded order stay as they are. -/
theorem tradedQuantity_step (hs : CancelsOnly c.shared.orders) (hguard : CountedWhenFilled c e)
    (hstep : step c.shared (c.procs e.proc) e.action = some (s', l'))
    (hrow : row ∈ c.shared.db.copyOrdersHistory) {orderId : Uuid}
    (horder : row.followerOrderId = some orderId) :
    tradedQuantity (ordersDb s').trades orderId =
      tradedQuantity (ordersDb c.shared).trades orderId := by
  have hnone := tradedQuantity_eq_zero fun trade htrade =>
    hguard.settled trade htrade row hrow orderId horder
  rw [trades_step hs hstep, tradedQuantity_append, hnone, add_zero]

theorem filled_next (hc : Counting c) (hguard : CountedWhenFilled c e)
    (hstep : step c.shared (c.procs e.proc) e.action = some (s', l'))
    (hafter : HistoryTrue s') (hrow : row ∈ c.shared.db.copyOrdersHistory)
    (hrow' : row ∈ s'.db.copyOrdersHistory) {orderId : Uuid}
    (horder : row.followerOrderId = some orderId) : IsFilled (ordersDb s') orderId := by
  have hcompleted := hc.referenced row hrow (by rw [horder]; nofun)
  obtain ⟨k, order, -, hk, hfind, -, -, -, -, hamount, -⟩ :=
    hc.told.historyTrue.truthful row hrow hcompleted
  obtain ⟨k', order', -, hk', hfind', -, -, -, -, hamount', -⟩ :=
    hafter.truthful row hrow' hcompleted
  cases hk.symm.trans horder
  cases hk'.symm.trans horder
  intro found hfound
  cases hfind'.symm.trans hfound
  rw [tradedQuantity_step hc.cancels hguard hstep hrow horder,
    hc.filled row hrow orderId horder order hfind]
  exact Numeric.units.inj (hamount.symm.trans hamount')

theorem counting_next (hc : Counting c) (hguard : CountedWhenFilled c e)
    (hnext : replicationSystem.next c e = some d) : Counting d := by
  have htold := allTold_next hc.told hguard.kind hnext
  obtain ⟨s', l', hstep, rfl⟩ := System.next_eq_some.mp hnext
  refine ⟨htold, cancelsOnly_step hc.cancels hstep, fun row hrow horder => ?_,
    fun row hrow orderId horder => ?_⟩
  · rcases history_step hstep with hsame | ⟨i, task, worker, lockToken, copying, new, newId, -, -,
      -, hrecord, hcreate⟩
    · exact hc.referenced row (hsame ▸ hrow) horder
    · rcases createHistory_cases hcreate with ⟨hdb, -⟩ | ⟨row', hrow', -, hdb⟩ <;>
        rw [hdb] at hrow
      · exact hc.referenced row hrow horder
      · rcases List.mem_append.mp hrow with hold | hnew
        · exact hc.referenced row hold horder
        · obtain rfl := List.mem_singleton.mp hnew
          obtain ⟨-, -, -, -, hcompleted⟩ := pendingRecord_referenced hrecord hrow' horder
          exact hcompleted
  · have hold (hmem : row ∈ c.shared.db.copyOrdersHistory) : IsFilled (ordersDb s') orderId :=
      filled_next hc hguard hstep htold.historyTrue hmem hrow horder
    rcases history_step hstep with hsame | ⟨i, task, worker, lockToken, copying, new, newId,
      hinserts, hworker, hprogress, hrecord, hcreate⟩
    · exact hold (hsame ▸ hrow)
    · rcases createHistory_cases hcreate with ⟨hdb, -⟩ | ⟨row', hrow', -, hdb⟩ <;>
        rw [hdb] at hrow
      · exact hold hrow
      · rcases List.mem_append.mp hrow with hmem | hnew
        · exact hold hmem
        · obtain rfl := List.mem_singleton.mp hnew
          obtain ⟨request, followerOrderId, rfl, hid, -⟩ :=
            pendingRecord_referenced hrecord hrow' (by rw [horder]; nofun)
          cases hid.symm.trans horder
          have hfilled := hguard.filled i task worker lockToken request orderId hinserts hworker
            hprogress
          rw [ordersDb, orders_of_inserts hstep hinserts]
          exact hfilled

theorem counting_initial : Counting initial where
  told := allTold_initial
  cancels _ _ _ _ h := nomatch h
  referenced _ hrow := absurd hrow List.not_mem_nil
  filled _ hrow := absurd hrow List.not_mem_nil

/-! ### Positions -/

/-- A completed row counts what was traded for its order. -/
theorem order_of_completed (hc : Counting c) {subscriptionId : Uuid} {pair : TradingSymbol}
    {side : OrderSide} (hrow : row ∈ completedRows c.shared.db subscriptionId pair side) :
    ∃ order ∈ referencedOrders c.shared subscriptionId pair side,
      row.followerOrderId = some order.id ∧
        units row.replicatedQuantity = tradedQuantity (ordersDb c.shared).trades order.id := by
  obtain ⟨hmem, rfl, rfl, hcompleted, rfl⟩ := mem_completedRows.mp hrow
  obtain ⟨orderId, order, -, horder, hfind, -, -, hpair, hside, hamount, -⟩ :=
    hc.told.historyTrue.truthful row hmem hcompleted
  obtain ⟨hrows, rfl⟩ := lookup_mem hfind
  refine ⟨order, ?_, horder, ?_⟩
  · simp only [referencedOrders, List.mem_filter, decide_eq_true_eq]
    exact ⟨hrows, hpair, hside, row, hmem, rfl, horder⟩
  · rw [hamount, units, hc.filled row hmem order.id horder order hfind]

/-- A referenced order is that of a completed row. -/
theorem completed_of_order (hc : Counting c) {subscriptionId : Uuid} {pair : TradingSymbol}
    {side : OrderSide} {order : Order}
    (horder : order ∈ referencedOrders c.shared subscriptionId pair side) :
    ∃ row ∈ completedRows c.shared.db subscriptionId pair side,
      row.followerOrderId = some order.id := by
  simp only [referencedOrders, List.mem_filter, decide_eq_true_eq] at horder
  obtain ⟨hmem, rfl, rfl, row, hrow, rfl, hid⟩ := horder
  have hcompleted := hc.referenced row hrow (by rw [hid]; nofun)
  obtain ⟨orderId, found, -, hid', hfind, -, -, hpair, hside, -, -⟩ :=
    hc.told.historyTrue.truthful row hrow hcompleted
  cases hid.symm.trans hid'
  have hfound : (ordersDb c.shared).findById order.id = some order :=
    (lookup_eq_some hc.told.traced.responding.keys.unique).mpr ⟨hmem, rfl⟩
  cases hfound.symm.trans hfind
  exact ⟨row, mem_completedRows.mpr ⟨hrow, rfl, hpair.symm, hcompleted, hside.symm⟩, hid⟩

/-- Completed rows of one side and the orders they reference correspond. -/
theorem orderIds_perm (hc : Counting c) (subscriptionId : Uuid) (pair : TradingSymbol)
    (side : OrderSide) :
    ((completedRows c.shared.db subscriptionId pair side).filterMap
      CopyOrderHistory.followerOrderId).Perm
        ((referencedOrders c.shared subscriptionId pair side).map Order.id) := by
  have hunique : KeyUnique Order.id (ordersDb c.shared).orders :=
    hc.told.traced.responding.keys.unique
  have horders : ((referencedOrders c.shared subscriptionId pair side).map Order.id).Nodup :=
    hunique.sublist (List.filter_sublist.map _)
  have hrows : (completedRows c.shared.db subscriptionId pair side).Nodup :=
    (List.Nodup.of_map _ hc.told.history.unique).filter _
  have hids : ((completedRows c.shared.db subscriptionId pair side).filterMap
      CopyOrderHistory.followerOrderId).Nodup := by
    refine List.pairwise_filterMap.mpr (List.Pairwise.imp_of_mem ?_ hrows)
    rintro row other hrow hother hne orderId hid _ hid' rfl
    obtain ⟨hmem, -, -, hcompleted, -⟩ := mem_completedRows.mp hrow
    obtain ⟨hmem', -, -, hcompleted', -⟩ := mem_completedRows.mp hother
    exact hne (hc.told.historyTrue.once row hmem other hmem' hcompleted hcompleted'
      (hid.trans hid'.symm))
  rw [List.perm_ext_iff_of_nodup hids horders]
  intro orderId
  simp only [List.mem_filterMap, List.mem_map]
  constructor
  · rintro ⟨row, hrow, hid⟩
    obtain ⟨order, horder, hid', -⟩ := order_of_completed hc hrow
    exact ⟨order, horder, Option.some.inj (hid'.symm.trans hid)⟩
  · rintro ⟨order, horder, rfl⟩
    exact completed_of_order hc horder

theorem completedUnits_eq (hc : Counting c) (subscriptionId : Uuid) (pair : TradingSymbol)
    (side : OrderSide) : completedUnits c.shared.db subscriptionId pair side =
      tradedThrough c.shared subscriptionId pair side := by
  have hrows : ∀ rows : List CopyOrderHistory,
      (∀ row ∈ rows, row ∈ completedRows c.shared.db subscriptionId pair side) →
        (rows.map fun row => units row.replicatedQuantity).sum =
          ((rows.filterMap CopyOrderHistory.followerOrderId).map
            (tradedQuantity (ordersDb c.shared).trades)).sum := by
    intro rows
    induction rows with
    | nil => exact fun _ => rfl
    | cons row rows ih =>
      intro hrows
      obtain ⟨order, -, hid, hunits⟩ := order_of_completed hc (hrows row List.mem_cons_self)
      rw [List.map_cons, List.sum_cons, List.filterMap_cons_some hid, List.map_cons, List.sum_cons,
        hunits, ih fun row hrow => hrows row (List.mem_cons_of_mem _ hrow)]
  have hperm := (orderIds_perm hc subscriptionId pair side).map
    (tradedQuantity (ordersDb c.shared).trades)
  rw [List.map_map] at hperm
  exact (hrows _ fun _ h => h).trans hperm.sum_eq

/-- In a run in which orders are recorded when they are filled, and locks are kept, positions
are holdings. -/
theorem positions_held (es : List (Event Action)) (d : CopyConfig)
    (h : replicationSystem.Run CountedWhenFilled initial es d)
    (hlocks : LocksKept (replicationSystem.transitions initial es)) : PositionsHeld d.shared := by
  have hc : Counting d := h.invariant counting_initial fun _ _ _ hc hguard hnext =>
    counting_next hc hguard hnext
  have hcounted := counted_of_rowsTold hc.told.rows
  have hsold := (conserved_of_exec h.executes hlocks).sold
  have hholdings (subscriptionId : Uuid) (pair : TradingSymbol) :
      max (completedUnits d.shared.db subscriptionId pair .buy -
        completedUnits d.shared.db subscriptionId pair .sell) 0 =
          holdings d.shared subscriptionId pair := by
    rw [max_eq_left (sub_nonneg.mpr (hsold subscriptionId pair)), holdings,
      completedUnits_eq hc, completedUnits_eq hc]
  refine ⟨fun subscriptionId pair => ?_, fun task masterBalance subscriber q hside hq => ?_⟩
  · simp only [subPosition, CopyTradingDb.getSubscriptionPosition, totalQuantity_eq hcounted,
      calculateSubPosition_units, hholdings]
  · have hle := targetQuantity_le hcounted hside hq
    rwa [hholdings] at hle

/-! ### Runs of one subscriber -/

instance (db : OrdersDb) (orderId : Uuid) : Decidable (IsFilled db orderId) :=
  match h : db.findById orderId with
  | none => isTrue fun order horder => by simp [h] at horder
  | some order =>
    if htraded : tradedQuantity db.trades orderId = order.amount then
      isTrue fun found hfound => by
        obtain rfl := Option.some.inj (h.symm.trans hfound)
        exact htraded
    else isFalse fun hfilled => htraded (hfilled order h)

/-- The row that the step inserts references an order that is filled. -/
def insertsFilled (t : CopyTransition) : Bool :=
  match t.event.action with
  | .worker i _ =>
    match workerOf (t.before.procs t.event.proc) i with
    | some (_, worker) =>
      match worker.progress with
      | .holding _ (.completing _ followerOrderId) => IsFilled (ordersDb t.before.shared) followerOrderId
      | _ => true
    | none => true
  | _ => true

/-- The guard, checked on one transition. -/
def countedWhenFilled (t : CopyTransition) : Bool :=
  findsNoRecord t && insertsFilled t &&
    (committing t.before.shared t.event.action).all fun trade =>
      t.before.shared.db.copyOrdersHistory.all fun row =>
        row.followerOrderId.all fun orderId => ¬trade.Names orderId

theorem countedWhenFilled_spec {t : CopyTransition} (h : countedWhenFilled t = true) :
    CountedWhenFilled t.before t.event := by
  simp only [countedWhenFilled, Bool.and_eq_true, List.all_eq_true] at h
  obtain ⟨⟨hkind, hfilled⟩, hsettled⟩ := h
  refine ⟨findsNoRecord_spec hkind, ?_, fun trade htrade row hrow orderId horder => ?_⟩
  · intro i task worker lockToken request followerOrderId hinserts hworker hprogress
    obtain ⟨workerAction, haction⟩ := hinserts.worker
    simpa only [insertsFilled, haction, hworker, hprogress, decide_eq_true_eq] using hfilled
  · have hnames := hsettled trade htrade row hrow
    rw [horder] at hnames
    simpa using hnames

/-- The steps of a call that takes an order out of the book. -/
def taking : List OrdersTransactions.Action :=
  [.statement, .insert "record", .statement, .reply .ok, .insert "order"] ++
    List.replicate 7 .statement ++ [.trade "t"] ++ List.replicate 8 .statement

/-- One unit is offered at a hundred, and the copy of the trade buys it. -/
def boughtTrade : List (Event Action) :=
  followed ++
    serve 9 (.createOrder (OrderFillLaws.limitOrder "seller" .sell 100 1) ::
      [.statement, .insert "offer", .statement, .reply .ok, .insert "m"] ++
        List.replicate 11 .statement) ++
    takeUp 0 "trade" 200 ++ order 0 0 "token" ++ serve 0 taking ++ recorded 0

/-- The position of the subscription, and what it holds. -/
def held (c : CopyConfig) : BigNumber × ℤ :=
  ((subPosition c.shared.db "sub" ⟨.eth, .usdt⟩).value, holdings c.shared "sub" ⟨.eth, .usdt⟩)

theorem boughtTrade_executes :
    (replicationSystem.exec initial boughtTrade).map held = some (.finite 1, 10 ^ 8) ∧
      (replicationSystem.transitions initial boughtTrade).all countedWhenFilled = true ∧
        locksKept (replicationSystem.transitions initial boughtTrade) = true := by
  decide +kernel

theorem positions_held_boughtTrade : ∃ d, replicationSystem.exec initial boughtTrade = some d ∧
    held d = (.finite 1, 10 ^ 8) ∧ PositionsHeld d.shared := by
  obtain ⟨d, hexec, hheld⟩ := Option.map_eq_some_iff.mp boughtTrade_executes.1
  exact ⟨d, hexec, hheld, positions_held boughtTrade d
    (.of_check hexec boughtTrade_executes.2.1 fun _ => countedWhenFilled_spec)
    (locksKept_spec boughtTrade_executes.2.2)⟩

theorem copiedTrade_held : (replicationSystem.exec initial copiedTrade).map held =
    some (.finite (1 / 5), 0) := by decide +kernel

/-- An order that rests in the book counts as bought: the position is a fifth of a unit, and
nothing is held. -/
theorem positions_unheld_copiedTrade :
    ¬∀ es d, replicationSystem.exec initial es = some d → PositionsHeld d.shared := by
  intro hall
  obtain ⟨d, hexec, hheld⟩ := Option.map_eq_some_iff.mp copiedTrade_held
  obtain ⟨hposition, hholdings⟩ := Prod.mk.inj hheld
  have heq := (hall copiedTrade d hexec).position "sub" ⟨.eth, .usdt⟩
  rw [hposition, hholdings] at heq
  exact absurd heq (by decide +kernel)

end EtherTrade.CopiedHoldingLaws
