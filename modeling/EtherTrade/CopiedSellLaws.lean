import EtherTrade.CopiedOrderLaws
import EtherTrade.CopiedPositions
import EtherTrade.FollowerLocks

/-!
# Copied sales never exceed copied purchases

A sale is sized under the lock of its follower, on the position of that moment. Until its row
is there, no other worker adds a row to the subscription, so the position still covers it.
-/

namespace EtherTrade.CopiedSellLaws

open DecimalNumbers KeyedRows AccountsSchema CopyTradingSchema InterleavedProcesses
open OrdersSchema hiding TradeExecutedEvent
open MasterTradeReplication MasterTradeReplicationSteps CopyHistory CopiedOrders CopiedOrderLaws
open CopiedPositions FollowerLocks CopyRatioCalculator
open OrdersTransactions (isPositive toColumn_nonneg validateCreateOrderRequest_eq_none)
open CopyCoverageLaws
open TradeSettlement (TradingSymbol KafkaBatchConsumerPayload tradeExecuted)

variable {s s' : CopyStore} {task : ReplicationSideTask} {subscriber other : CopySubscription}
  {copying copying' : Copying} {lockToken : Uuid} {new : NewCopyOrderHistory} {newId : Uuid}
  {workerAction : WorkerAction} {masterBalance : BigNumber} {request : CreateOrderRequest}
  {item : OrderItem} {row : CopyOrderHistory} {c d : CopyConfig} {e : Event Action}
  {p i : ℕ} {ts : List CopyTransition}

/-! ### Rows and orders -/

/-- What holds of all rows and workers, whatever calls are answered with. -/
structure Recorded (c : CopyConfig) : Prop where
  started : Started c.shared
  ids : KeyUnique CopySubscription.id c.shared.db.copySubscriptions
  rows : RowsTold c.shared
  processes : ∀ p, Informed c.shared (c.procs p)

theorem recorded_next (hc : Recorded c) (hnext : replicationSystem.next c e = some d) :
    Recorded d := by
  obtain ⟨s', l', hstep, rfl⟩ := System.next_eq_some.mp hnext
  have hkept : Kept c.shared s' := kept_step hc.started hstep
  refine ⟨started_step hc.started hstep, hkept.subscriptions.ids hc.ids,
    rowsTold_step hc.started hc.rows (hc.processes e.proc) hstep, fun p => ?_⟩
  by_cases hp : p = e.proc
  · subst hp
    simpa using informed_step hc.started (hc.processes e.proc) hstep
  · simpa only [Function.update_of_ne hp] using (hc.processes p).kept hc.started hkept

theorem recorded_initial : Recorded initial where
  started _ _ hcall := nomatch hcall
  ids := keyUnique_nil
  rows _ hrow := absurd hrow List.not_mem_nil
  processes _ := ⟨fun _ h => absurd h List.not_mem_nil, fun _ _ _ h => nomatch h⟩

/-- What a call was given asked for a positive amount. -/
theorem amount_of_given {copy : Copy} (h : Given s copy request item) :
    ∃ q, request.amount.value = .finite q ∧ 0 < q := by
  obtain ⟨call, valid, -, -, rfl⟩ := h
  have hpositive := (validateCreateOrderRequest_eq_none valid.property).2
  cases hvalue : valid.val.amount.value with
  | finite q =>
    rw [hvalue] at hpositive
    exact ⟨q, rfl, of_decide_eq_true hpositive⟩
  | nan =>
    rw [hvalue] at hpositive
    cases hpositive
  | infinite negative =>
    rw [hvalue] at hpositive
    cases hpositive

/-- A column stores a finite number as units. -/
theorem ofBigNumber_finite {q : ℚ} {column : Numeric}
    (h : Numeric.ofBigNumber (.finite q) = some column) :
    ∃ n, (BigNumber.finite q).toColumn = some n ∧ column = .units n := by
  obtain ⟨n, hn, rfl⟩ := Option.map_eq_some_iff.mp h
  exact ⟨n, hn, rfl⟩

theorem counted_of_rowsTold (h : RowsTold s) : Counted s.db := by
  intro row hrow hcompleted
  obtain ⟨request, item, hrecord⟩ := h row hrow hcompleted
  obtain ⟨q, hq, hpositive⟩ := amount_of_given hrecord.given
  have hquantity := hrecord.quantity
  rw [hq] at hquantity
  obtain ⟨n, hn, hunits⟩ := ofBigNumber_finite hquantity
  have hamount : isPositive (.finite q) = true := decide_eq_true hpositive
  exact ⟨n, hunits, toColumn_nonneg hamount hn⟩

/-! ### Sizes of sales -/

/-- The order that a worker is about to place, or has placed and not recorded. -/
def requested : Copying → Option CreateOrderRequest
  | .ordering request => some request
  | .awaiting request _ => some request
  | .completing request _ => some request
  | _ => none

/-- The position covers the sale of the worker. -/
def Covered (db : CopyTradingDb) (task : ReplicationSideTask) (subscriber : CopySubscription)
    (copying : Copying) : Prop :=
  task.side = .sell → ∀ request, requested copying = some request →
    ∀ q, request.amount.value = .finite q → q ≤ ((max (completedUnits db subscriber.id task.pair
      .buy - completedUnits db subscriber.id task.pair .sell) 0 : ℤ) : ℚ) / scale

theorem covered_of_none (h : requested copying = none) (db : CopyTradingDb)
    (task : ReplicationSideTask) (subscriber : CopySubscription) :
    Covered db task subscriber copying := by
  intro _ request hrequest
  cases h.symm.trans hrequest

theorem requested_afterError (message : String) (copying : Copying) :
    requested (afterError message copying) = none := by
  cases copying <;> rfl

/-- A sale is sized within the position. -/
theorem targetQuantity_le (hcounted : Counted s.db) (hside : task.side = .sell) {q : ℚ}
    (hq : (targetQuantity s task masterBalance subscriber).value = .finite q) :
    q ≤ ((max (completedUnits s.db subscriber.id task.pair .buy -
      completedUnits s.db subscriber.id task.pair .sell) 0 : ℤ) : ℚ) / scale := by
  simp only [targetQuantity, hside, CopyTradingDb.getSubscriptionPosition,
    totalQuantity_eq hcounted, calculateSubPosition_units] at hq
  exact calculateSellQuantity_le hq
    (div_nonneg (Int.cast_nonneg (le_max_right _ _)) scale_pos.le)

/-- A worker that is covered stays so in its own steps. -/
theorem covered_copyStep (hcounted : Counted s.db) (h : Covered s.db task subscriber copying)
    (hstep : copyStep s task masterBalance subscriber copying workerAction = some (s', copying')) :
    Covered s'.db task subscriber copying' := by
  have heffect := copyStep_cases hstep
  cases heffect with
  | dust quantity => exact covered_of_none rfl _ _ _
  | sized quantity =>
    simp only [copyStep] at hstep
    split at hstep
    · cases hstep
    · intro hside request hrequest q hq
      cases hrequest
      cases hstep
      exact targetQuantity_le hcounted hside hq
  | called => exact h
  | replied => exact h
  | inserted hrecord hcreate hnext =>
    rcases hnext with ⟨-, rfl⟩ | ⟨-, rfl⟩
    · exact covered_of_none rfl _ _ _
    · exact covered_of_none (requested_afterError _ _) _ _ _
  | failed => exact covered_of_none (requested_afterError _ _) _ _ _

/-! ### Steps -/

/-- What a step does to the sums of completed rows: nothing, or a worker that acts under its
lock adds its row. -/
inductive UnitsEffect (c : CopyConfig) (e : Event Action) (d : CopyConfig) : Prop
  | kept (hunits : ∀ subscriptionId pair side, completedUnits d.shared.db subscriptionId pair side =
      completedUnits c.shared.db subscriptionId pair side)
  | added {p i : ℕ} {workerAction : WorkerAction} {task : ReplicationSideTask}
      {subscriber : CopySubscription} {lockToken followerOrderId : Uuid}
      {request : CreateOrderRequest} {q : ℚ} {n : ℤ}
      (hevent : e = ⟨p, .worker i workerAction⟩)
      (hholds : Holds c p i task subscriber lockToken (.completing request followerOrderId))
      (hamount : request.amount.value = .finite q) (hpositive : 0 < q)
      (hcolumn : (BigNumber.finite q).toColumn = some n)
      (hunits : ∀ subscriptionId pair side, completedUnits d.shared.db subscriptionId pair side =
        completedUnits c.shared.db subscriptionId pair side +
          if subscriber.id = subscriptionId ∧ task.pair = pair ∧ task.side = side then n else 0)

theorem unitsEffect_next (hc : Recorded c) (hnext : replicationSystem.next c e = some d) :
    UnitsEffect c e d := by
  obtain ⟨s', l', hstep, rfl⟩ := System.next_eq_some.mp hnext
  rcases history_step hstep with hsame | ⟨i, task, worker, lockToken, copying, new, newId,
    hinserts, hworker, hprogress, hrecord, hcreate⟩
  · refine .kept fun subscriptionId pair side => ?_
    rw [completedUnits, completedRows, hsame]
    rfl
  · rcases createHistory_cases hcreate with ⟨hdb, -⟩ | ⟨row, hrow, -, hdb⟩
    · refine .kept fun subscriptionId pair side => ?_
      rw [hdb]
    · have hunits := completedUnits_append c.shared.db row
      rw [← hdb] at hunits
      by_cases hcompleted : row.status = .completed
      · have hend : new.status = .completed := (toRow_copy hrow).2.symm.trans hcompleted
        have hknows := (hc.processes e.proc).workers i task worker hworker
        rw [hprogress] at hknows
        cases copying with
        | completing request followerOrderId =>
          obtain ⟨-, item, hgiven, -⟩ := hknows
          obtain ⟨q, hq, hpositive⟩ := amount_of_given hgiven
          cases hrecord
          simp only [NewCopyOrderHistory.toRow, Option.bind_eq_bind, Option.bind_eq_some_iff,
            Option.pure_def, Option.some.injEq, record, hq] at hrow
          obtain ⟨quantity, hquantity, price, -, rfl⟩ := hrow
          obtain ⟨n, hn, rfl⟩ := ofBigNumber_finite hquantity
          have hholds : Holds c e.proc i task worker.subscriber lockToken
              (.completing request followerOrderId) := by
            rw [Holds, hworker, ← hprogress]
          obtain ⟨workerAction, haction⟩ := hinserts.worker
          have hevent : e = ⟨e.proc, .worker i workerAction⟩ := by rw [← haction]
          refine .added hevent hholds hq hpositive hn fun subscriptionId pair side => ?_
          rw [hunits]
          simp [units]
        | skipping quantity =>
          cases hrecord
          cases hend
        | failing request reason =>
          cases hrecord
          cases hend
        | _ => cases hrecord
      · refine .kept fun subscriptionId pair side => ?_
        rw [hunits, if_neg fun h => hcompleted h.2.2.1, add_zero]

/-- Sums of purchases and sales of a subscription, as long as no other worker of its follower
is in time with its lock. -/
structure Conserved (ts : List CopyTransition) (c : CopyConfig) : Prop where
  recorded : Recorded c
  locked : Locked ts c
  covered : ∀ p i task subscriber lockToken copying,
    Holds c p i task subscriber lockToken copying → InTime ts c.shared lockToken →
      Covered c.shared.db task subscriber copying
  sold : ∀ subscriptionId pair, completedUnits c.shared.db subscriptionId pair .sell ≤
    completedUnits c.shared.db subscriptionId pair .buy

/-- Workers of one subscription have one follower. -/
theorem follower_of_id (hc : Recorded c) {q j : ℕ} {task' : ReplicationSideTask}
    {lockToken' : Uuid} (h : Holds c p i task subscriber lockToken copying)
    (h' : Holds c q j task' other lockToken' copying') (hid : other.id = subscriber.id) :
    other.followerUserId = subscriber.followerUserId := by
  obtain ⟨row, hrow, hrowId, hfollows⟩ :=
    (hc.processes p).pending _ (subscriber_mem_pending h)
  obtain ⟨row', hrow', hrowId', hfollows'⟩ :=
    (hc.processes q).pending _ (subscriber_mem_pending h')
  obtain rfl := hc.ids.eq hrow' hrow (hrowId'.trans (hid.trans hrowId.symm))
  exact congrArg Prod.fst (hfollows'.symm.trans hfollows)

/-- A holder that is in time is covered after a step of somebody else. -/
theorem covered_other (hc : Conserved ts c) (hkept : LocksKept (ts ++ [⟨c, e, d⟩]))
    (hnext : replicationSystem.next c e = some d)
    (hholds : Holds c p i task subscriber lockToken copying)
    (hother : ∀ workerAction, e ≠ ⟨p, .worker i workerAction⟩)
    (htime : InTime ts c.shared lockToken) : Covered d.shared.db task subscriber copying := by
  have hold := hc.covered _ _ _ _ _ _ hholds htime
  cases unitsEffect_next hc.recorded hnext with
  | kept hunits =>
    intro hside request hrequest q hq
    rw [hunits, hunits]
    exact hold hside request hrequest q hq
  | @added p' i' workerAction task' other lockToken' _ _ _ n hevent hacting hamount hpositive
      hcolumn hunits =>
    have hne : other.id ≠ subscriber.id := by
      intro hid
      have hfollower := follower_of_id hc.recorded hholds hacting hid
      have hacts := hc.locked.inTime hkept hacting hevent nofun
      obtain ⟨rfl, rfl⟩ := hc.locked.exclusive hholds hacting hfollower htime hacts
      exact hother workerAction hevent
    intro hside request hrequest q hq
    rw [hunits, hunits, if_neg fun h => hne h.1, if_neg fun h => hne h.1, add_zero, add_zero]
    exact hold hside request hrequest q hq

theorem conserved_next (hkept : LocksKept (ts ++ [⟨c, e, d⟩])) (hc : Conserved ts c)
    (hnext : replicationSystem.next c e = some d) : Conserved (ts ++ [⟨c, e, d⟩]) d := by
  have hcounted := counted_of_rowsTold hc.recorded.rows
  refine ⟨recorded_next hc.recorded hnext, locked_next hkept hc.locked hnext, ?_, ?_⟩
  · intro p i task subscriber lockToken copying h htime
    rcases holds_next hnext h with ⟨hold, hother⟩ | ⟨copying', workerAction, masterBalance, hevent,
      hold, -, hstep⟩ | ⟨locks, -, rfl, -⟩
    · have hbefore := htime.before hkept (now_le_next hnext) (hc.locked.generated _ _ _ _ _ _ hold)
      exact covered_other hc hkept hnext hold hother hbefore
    · have hbefore := htime.before hkept (now_le_next hnext) (hc.locked.generated _ _ _ _ _ _ hold)
      exact covered_copyStep hcounted (hc.covered _ _ _ _ _ _ hold hbefore) hstep
    · exact covered_of_none rfl _ _ _
  · intro subscriptionId pair
    have hsold := hc.sold subscriptionId pair
    cases unitsEffect_next hc.recorded hnext with
    | kept hunits => rwa [hunits, hunits]
    | @added p i workerAction task subscriber lockToken followerOrderId request q n hevent hholds
        hamount hpositive hcolumn hunits =>
      rw [hunits, hunits]
      by_cases hrow : subscriber.id = subscriptionId ∧ task.pair = pair
      · obtain ⟨rfl, rfl⟩ := hrow
        have hnonneg : 0 ≤ n := toColumn_nonneg (n := .finite q) (decide_eq_true hpositive) hcolumn
        have hacts := hc.locked.inTime hkept hholds hevent nofun
        cases hside : task.side with
        | buy =>
          simp only [true_and, reduceCtorEq, if_false, if_true]
          omega
        | sell =>
          have hcovers := hc.covered _ _ _ _ _ _ hholds hacts hside request rfl q hamount
          have hle := toColumn_le hpositive.le hcovers hcolumn
          simp only [true_and, reduceCtorEq, if_false, if_true]
          omega
      · rw [if_neg fun h => hrow ⟨h.1, h.2.1⟩, if_neg fun h => hrow ⟨h.1, h.2.1⟩]
        omega

theorem conserved_initial : Conserved [] initial where
  recorded := recorded_initial
  locked := locked_initial
  covered _ _ _ _ _ _ h := nomatch h
  sold _ _ := le_rfl

theorem conserved_of_exec {es : List (Event Action)}
    (h : replicationSystem.exec initial es = some d)
    (hlocks : LocksKept (replicationSystem.transitions initial es)) :
    Conserved (replicationSystem.transitions initial es) d := by
  refine System.exec_trace_invariant (I := fun ts c => LocksKept ts → Conserved ts c) h
    (fun _ => conserved_initial) ?_ hlocks
  intro ts c e d hc hnext hkept
  exact conserved_next hkept (hc hkept.earlier) hnext

/-- In a run in which tokens are generated once and no worker acts under a lock whose time has
passed, the completed sales of a subscription add up to at most its completed purchases. -/
theorem copied_sells_le_buys (es : List (Event Action)) (d : CopyConfig)
    (h : replicationSystem.exec initial es = some d)
    (hlocks : LocksKept (replicationSystem.transitions initial es)) (subscriptionId : Uuid)
    (pair : TradingSymbol) :
    (d.shared.db.totalQuantity subscriptionId pair .sell).isLessThanOrEqualTo
      (d.shared.db.totalQuantity subscriptionId pair .buy) = true := by
  have hc := conserved_of_exec h hlocks
  have hcounted := counted_of_rowsTold hc.recorded.rows
  rw [totalQuantity_eq hcounted, totalQuantity_eq hcounted]
  have hle := div_le_div_of_nonneg_right (Int.cast_le (R := ℚ).mpr (hc.sold subscriptionId pair))
    scale_pos.le
  simpa [BigNumber.isLessThanOrEqualTo, BigNumber.isGreaterThan] using hle

/-- The condition on locks, checked on the transitions of a run. -/
def locksKept (ts : List CopyTransition) : Bool :=
  let locks := ts.filterMap issued
  decide (locks.map Prod.fst).Nodup && ts.all fun t => locks.all fun lock =>
    critical t ≠ some lock.1 || t.before.shared.now < lock.2 + CopyTradingConstants.defaultLockTtlMs

theorem locksKept_spec (h : locksKept ts = true) : LocksKept ts := by
  simp only [locksKept, Bool.and_eq_true, decide_eq_true_eq, List.all_eq_true, Bool.or_eq_true,
    decide_not, Bool.not_eq_true'] at h
  refine ⟨h.1, fun t ht lockToken time hcritical hissued => ?_⟩
  rcases h.2 t ht (lockToken, time) hissued with hne | hlt
  · exact absurd hcritical (of_decide_eq_false hne)
  · exact hlt

/-- The master sells two units at two hundred. -/
def saleMessage : KafkaBatchConsumerPayload where
  offset := "1"
  value := some ⟨"sale", tradeExecuted, "matching.trade_executed", some { masterTrade "sale" with
    buyerUserId := "buyer", sellerUserId := "master", price := .finite 200 }⟩
  actionHeader := ""

/-- The steps of a call that places its order above the bids. -/
def placingSale : List OrdersTransactions.Action :=
  [.statement, .insert "record2", .statement, .reply .ok, .insert "order2"] ++
    List.replicate 12 .statement

/-- A purchase is copied, and half of it is sold again. -/
def boughtAndSold : List (Event Action) :=
  copiedTrade ++ perform 1 [.deliver saleMessage, .statement, .statement, .balance (.finite 4)] ++
    order 1 1 "token2" ++ serve 1 placingSale ++
      perform 1 [.worker 0 .reply, .worker 0 (.insert "row2"), .worker 0 .statement, .heartbeat]

theorem boughtAndSold_executes :
    (replicationSystem.exec initial boughtAndSold).map
        (fun c => c.shared.db.getSubscriptionPosition "sub" ⟨.eth, .usdt⟩) =
          some (.finite (1 / 5), .finite (1 / 10)) ∧
      locksKept (replicationSystem.transitions initial boughtAndSold) = true := by
  decide +kernel

theorem copied_sells_le_buys_boughtAndSold : ∃ d,
    replicationSystem.exec initial boughtAndSold = some d ∧
      d.shared.db.getSubscriptionPosition "sub" ⟨.eth, .usdt⟩ =
        (.finite (1 / 5), .finite (1 / 10)) ∧
      (d.shared.db.totalQuantity "sub" ⟨.eth, .usdt⟩ .sell).isLessThanOrEqualTo
        (d.shared.db.totalQuantity "sub" ⟨.eth, .usdt⟩ .buy) = true := by
  obtain ⟨d, hexec, hposition⟩ := Option.map_eq_some_iff.mp boughtAndSold_executes.1
  exact ⟨d, hexec, hposition, copied_sells_le_buys boughtAndSold d hexec
    (locksKept_spec boughtAndSold_executes.2) "sub" ⟨.eth, .usdt⟩⟩

end EtherTrade.CopiedSellLaws
