import EtherTrade.OrderCompensationLaws
import EtherTrade.OrderStatusLaws
import EtherTrade.TradingServices

/-!
# What a cancellation returns

An order is cancelled by one call at most as long as no maker is updated after its end.
Over every such interleaving, a cancellation that has returned has moved the reserve of
its order from locked to available once, if the unlock of the order is served and moves
funds when it is asked for.
-/

namespace EtherTrade.CancelReleaseLaws

open DecimalNumbers KeyedRows AccountsSchema AccountsDbInvariants OrdersSchema MatchingEngine
open BalanceMutations (BalanceOperation)
open OrdersTransactions hiding Action step initial
open InterleavedProcesses ResourceLocks OrdersTransactionInvariants OrdersTransactionSteps
open OrdersTransactionRuns OrderStatusLaws OrderFillLaws BalancesService SequentialRequests
open TradingServices
open OrderSagas (Services Delivery deliver)
open OrderCompensationLaws (pair_supported normalizeCurrency_of_supported exists_step exists_reply
  deliver_cases buyer buyOrder knowsBuyer)

variable {isValidUuid : String → Bool} {db : OrdersDb} {p q : ℕ} {s s' : Shared} {w : UnitOfWork}
  {l l' : Process} {action : OrdersTransactions.Action} {orderId : Uuid} {order : Order}
  {item : OrderItem} {request : CancelOrderRequest}

/-! ### The pairs of orders -/

/-- Every order trades a supported pair. -/
def Paired (db : OrdersDb) : Prop :=
  ∀ orderId order, db.findById orderId = some order → order.pair ∈ supportedPairs

/-- So does every row that a transaction has written. -/
def CallPaired : Process → Prop
  | .creating _ (.placing _ (.active w _)) => ∀ orderId order,
      lookup Order.id w.rows orderId = some order → order.pair ∈ supportedPairs
  | _ => True

theorem callPaired_of_inert (h : Inert l) : CallPaired l := by
  unfold CallPaired
  split
  · exact h.elim
  · trivial

theorem newOrder_pair {create : CreateOrderRequest} {newId : Uuid}
    (h : newOrder create newId = some order) : order.pair = create.pair := by
  simp only [newOrder, Option.bind_eq_bind, Option.bind_eq_some_iff, Option.pure_def,
    Option.some.injEq] at h
  obtain ⟨price, -, amount, -, rfl⟩ := h
  rfl

/-- An update keeps the pair of the row it finds. -/
theorem paired_updateExecution {filledAmount remainingAmount : ℤ} {status : OrderStatus}
    (hdb : Paired db)
    (hrows : ∀ k row, lookup Order.id w.rows k = some row → row.pair ∈ supportedPairs) (k : Uuid)
    (row : Order) (h : lookup Order.id (w.write
      (w.updateExecution db orderId filledAmount remainingAmount status)).rows k = some row) :
    row.pair ∈ supportedPairs := by
  rw [lookup_write_updateExecution] at h
  split at h
  · obtain ⟨found, hfound, rfl⟩ := Option.map_eq_some_iff.mp h
    change found.pair ∈ supportedPairs
    rcases Option.or_eq_some_iff.mp hfound with hfound | ⟨-, hfound⟩
    · exact hrows _ _ hfound
    · exact hdb _ _ hfound
  · exact hrows _ _ h

theorem paired_install {rows : List Order} {events : List OutboxEvent} (hdb : Paired db)
    (hrows : ∀ k row, lookup Order.id rows k = some row → row.pair ∈ supportedPairs) :
    Paired (db.install rows events) := by
  intro k row hrow
  rw [findById_install] at hrow
  rcases Option.or_eq_some_iff.mp hrow with hrow | ⟨-, hrow⟩
  · exact hrows _ _ hrow
  · exact hdb _ _ hrow

theorem lookup_singleton_eq {order row : Order} {k : Uuid}
    (h : lookup Order.id [order] k = some row) : row = order :=
  List.mem_singleton.mp (lookup_mem h).1

private theorem paired_active {create : ValidRequest} {recordId : Uuid} {point : Point}
    {placing : Placing} (hdb : Paired s.store.db)
    (hrows : CallPaired (.creating create (.placing recordId (.active w point))))
    (hmeets : Meets MakerCommitted s.store.db
      (.creating create (.placing recordId (.active w point))) action)
    (h : ActiveStep p s w point action s' placing) :
    Paired s'.store.db ∧ CallPaired (.creating create (.placing recordId placing)) := by
  cases h with
  | quiet hstore =>
    refine ⟨?_, hrows⟩
    rw [hstore]
    exact hdb
  | matched => exact ⟨hdb, paired_updateExecution hdb hrows⟩
  | unmatched hnone =>
    have hcommitted := hmeets _ _ _ _ _ _ rfl rfl
    rw [UnitOfWork.findById, Option.or_eq_none_iff] at hnone
    rw [MakerCommitted, hnone.2] at hcommitted
    cases hcommitted
  | finished => exact ⟨hdb, paired_updateExecution hdb hrows⟩
  | committed hended =>
    refine ⟨paired_install hdb hrows, callPaired_of_inert ?_⟩
    cases placing with
    | active u at' => exact absurd rfl (hended u at')
    | _ => trivial
  | aborted => exact ⟨hdb, trivial⟩

theorem preserved_paired : Preserved MakerCommitted Paired fun _ l => CallPaired l where
  committed _ _ _ _ h := h
  own p s l action s' l' hdb hi hrows hmeets h := by
    cases h with
    | quiet horders _ _ hinert =>
      refine ⟨fun k row hrow => hdb k row ?_, callPaired_of_inert hinert⟩
      rwa [OrdersDb.findById, horders] at hrow
    | @started create _ _ order horder =>
      refine ⟨hdb, fun k row hrow => ?_⟩
      rw [lookup_singleton_eq hrow, newOrder_pair horder]
      exact pair_supported create
    | placed hstep => exact paired_active hdb hrows hmeets hstep
    | held => exact ⟨hdb, trivial⟩
    | recorded => exact ⟨hdb, trivial⟩
    | cancelled hinert =>
      obtain ⟨⟨-, live, hlive, rfl⟩, -⟩ := hi
      refine ⟨paired_install hdb fun k row hrow => ?_, callPaired_of_inert hinert⟩
      have hpair : live.pair ∈ supportedPairs := hdb _ _ (cancellableOrder_eq_some hlive).1
      rwa [lookup_singleton_eq hrow]
  others _ _ _ _ _ _ h := h

/-! ### Orders that are cancelled -/

/-- The order that a call has cancelled, from its commit on. -/
def cancelledItem : Process → Option (CancelOrderRequest × OrderItem)
  | .cancelling request (.unlocking order) => some (request, mapOrderToItem order)
  | .cancelling request (.awaitingUnlock order) => some (request, mapOrderToItem order)
  | .cancelling request (.returned item) => some (request, item)
  | _ => none

/-- The order of the request is committed at its end, and belongs to the caller. -/
def Cancelled (db : OrdersDb) (request : CancelOrderRequest) (item : OrderItem) : Prop :=
  ∃ order, Terminal db request.orderId order ∧ order.userId = request.userId ∧
    item = mapOrderToItem order

theorem Cancelled.orderId_eq (h : Cancelled db request item) : item.orderId = request.orderId := by
  obtain ⟨order, hterminal, -, rfl⟩ := h
  exact (lookup_mem hterminal.1).2

theorem Cancelled.userId_eq (h : Cancelled db request item) : item.userId = request.userId := by
  obtain ⟨order, -, huser, rfl⟩ := h
  exact huser

theorem Cancelled.paired (h : Cancelled db request item) (hdb : Paired db) :
    item.pair ∈ supportedPairs := by
  obtain ⟨order, hterminal, -, rfl⟩ := h
  exact hdb _ _ hterminal.1

theorem cancellableOrder_userId (h : cancellableOrder db request = some order) :
    order.userId = request.userId := by
  simp only [cancellableOrder, OrdersDb.findByIdAndUserId, Option.filter_eq_some_iff,
    decide_eq_true_eq] at h
  exact h.1.2

/-- The steps of a cancellation from its commit on. -/
inductive LastStep (p : ℕ) (s : Shared) (request : CancelOrderRequest) :
    Cancelling → OrdersTransactions.Action → Shared → Cancelling → Prop
  | committed {updated : Order} {event : OutboxEvent} :
      LastStep p s request (.committing updated event) .statement (commit p s [updated] [event])
        (.unlocking updated)
  | asked {order : Order} {units : ℕ} (hamount : unlockAmount order = .digits 0 (units + 1)) :
      LastStep p s request (.unlocking order) .statement (send s (unlockRequest request order))
        (.awaitingUnlock order)
  | spared {order : Order} (hamount : ∀ units, unlockAmount order ≠ .digits 0 (units + 1)) :
      LastStep p s request (.unlocking order) .statement s (.returned (mapOrderToItem order))
  | answered {order : Order} {reply : BalanceReply} :
      LastStep p s request (.awaitingUnlock order) (.reply reply) s
        (.returned (mapOrderToItem order))

theorem lastStep_of_cancellingStep {progress progress' : Cancelling}
    (h : cancellingStep p s request progress action = some (s', progress'))
    (hitem : (cancelledItem (.cancelling request progress')).isSome) :
    LastStep p s request progress action s' progress' := by
  cases progress with
  | committing updated event =>
    cases action with
    | statement =>
      cases h
      exact .committed
    | _ => cases h <;> cases hitem
  | unlocking order =>
    cases action with
    | statement =>
      simp only [cancellingStep] at h
      split at h
      · next hamount =>
        cases h
        exact .asked hamount
      · next hamount =>
        cases h
        exact .spared hamount
    | _ => cases h
  | awaitingUnlock order =>
    cases action with
    | reply r =>
      cases h
      exact .answered
    | _ => cases h
  | finding =>
    cases action with
    | statement =>
      simp only [cancellingStep] at h
      split at h
      · cases h
        cases hitem
      · split at h
        · cases h
          cases hitem
        · split at h <;> cases h <;> cases hitem
    | _ => cases h <;> cases hitem
  | updating levelTotalQuantity sequenceId =>
    cases action with
    | statement =>
      simp only [cancellingStep] at h
      split at h
      · cases h
        cases hitem
      · split at h <;> cases h
        cases hitem
    | _ => cases h <;> cases hitem
  | _ => cases action <;> cases h <;> cases hitem

/-- A call that has cancelled an order is past the commit of its cancellation. -/
theorem lastStep_of_step (h : OrdersTransactions.step p s l action = some (s', l'))
    (hitem : cancelledItem l' = some (request, item)) : ∃ progress progress',
      l = .cancelling request progress ∧ l' = .cancelling request progress' ∧
        LastStep p s request progress action s' progress' := by
  cases l with
  | idle =>
    exfalso
    cases action with
    | createOrder create =>
      simp only [OrdersTransactions.step] at h
      split at h <;> cases h <;> cases hitem
    | _ => cases h <;> cases hitem
  | refused exception => cases action <;> cases h
  | creating create progress =>
    obtain ⟨r, -, heq⟩ := Option.map_eq_some_iff.mp h
    obtain ⟨-, rfl⟩ := Prod.mk.inj heq
    cases hitem
  | cancelling own progress =>
    obtain ⟨⟨s₁, progress'⟩, hstep, heq⟩ := Option.map_eq_some_iff.mp h
    obtain ⟨rfl, rfl⟩ := Prod.mk.inj heq
    have hlast := lastStep_of_cancellingStep hstep (by rw [hitem]; rfl)
    have hown : own = request := by
      cases hlast <;> exact (Prod.mk.inj (Option.some.inj hitem)).1
    subst hown
    exact ⟨progress, progress', rfl, rfl, hlast⟩

/-- It had cancelled the order before the step, or it does by committing the row, which could
be cancelled until then. -/
theorem cancelledItem_step (hi : ProcessInvariant p s l)
    (h : OrdersTransactions.step p s l action = some (s', l'))
    (hitem : cancelledItem l' = some (request, item)) :
    cancelledItem l = some (request, item) ∨
      Live s.store.db request.orderId ∧ Cancelled s'.store.db request item := by
  obtain ⟨progress, progress', rfl, rfl, hlast⟩ := lastStep_of_step h hitem
  cases hlast with
  | committed =>
    cases hitem
    obtain ⟨⟨-, live, hlive, rfl⟩, -⟩ := hi
    obtain ⟨hfind, hid, hstatus⟩ := cancellableOrder_eq_some hlive
    have huser : live.userId = request.userId := cancellableOrder_userId hlive
    refine Or.inr ⟨⟨live, hfind, hstatus⟩, { live with status := .cancelled },
      ⟨findById_install.trans ?_, List.mem_cons_of_mem _ List.mem_cons_self⟩, huser, rfl⟩
    rw [lookup, List.find?_cons_of_pos (by simpa using hid), Option.some_or]
  | asked => exact Or.inl hitem
  | spared => exact Or.inl hitem
  | answered => exact Or.inl hitem

/-- Each cancelled order stands as it was cancelled, and one call has cancelled it. -/
structure CancelledOnce (c : OrdersConfig) : Prop where
  cancelled : ∀ p request item, cancelledItem (c.procs p) = some (request, item) →
    Cancelled c.shared.store.db request item
  unique : ∀ p q request item request' item', cancelledItem (c.procs p) = some (request, item) →
    cancelledItem (c.procs q) = some (request', item') → request.orderId = request'.orderId → p = q

theorem cancelledOnce_next {c d : OrdersConfig} {e : Event OrdersTransactions.Action}
    (hlive : OrdersInvariant (fun _ => True) CallLive c) (hc : CancelledOnce c)
    (h : ordersSystem.next c e = some d) : CancelledOnce d := by
  obtain ⟨s, l, hs, rfl⟩ := System.next_eq_some.mp h
  have hi := hlive.processes e.proc
  have hkept : ∀ request item, Cancelled c.shared.store.db request item →
      Cancelled s.store.db request item := by
    rintro request item ⟨order, hterminal, hitem⟩
    have hfind := (terminal_processStep hi (hlive.calls e.proc) (step_cases hs) hterminal).1
    exact ⟨order, ⟨hfind, hterminal.2⟩, hitem⟩
  -- what the call has just committed was open, so no other call had cancelled it
  have hother : ∀ q request item request' item', cancelledItem l = some (request, item) →
      cancelledItem (c.procs q) = some (request', item') → request.orderId = request'.orderId →
        q = e.proc := by
    intro q request item request' item' hl hq heq
    rcases cancelledItem_step hi hs hl with hl | ⟨hopen, -⟩
    · exact (hc.unique _ _ _ _ _ _ hl hq heq).symm
    · obtain ⟨order, hterminal, -⟩ := hc.cancelled q request' item' hq
      rw [heq] at hopen
      exact absurd hopen hterminal.not_live
  refine ⟨fun p request item hp => ?_, fun p q request item request' item' hp hq heq => ?_⟩
  · by_cases hpe : p = e.proc
    · subst hpe
      simp only [Function.update_self] at hp
      rcases cancelledItem_step hi hs hp with hp | ⟨-, hcancelled⟩
      · exact hkept request item (hc.cancelled e.proc request item hp)
      · exact hcancelled
    · simp only [Function.update_of_ne hpe] at hp
      exact hkept request item (hc.cancelled p request item hp)
  · by_cases hpe : p = e.proc
    · by_cases hqe : q = e.proc
      · rw [hpe, hqe]
      · simp only [hpe, Function.update_self] at hp
        simp only [Function.update_of_ne hqe] at hq
        exact absurd (hother q request item request' item' hp hq heq) hqe
    · simp only [Function.update_of_ne hpe] at hp
      by_cases hqe : q = e.proc
      · simp only [hqe, Function.update_self] at hq
        exact absurd (hother p request' item' request item hq hp heq.symm) hpe
      · simp only [Function.update_of_ne hqe] at hq
        exact hc.unique p q request item request' item' hp hq heq

/-! ### The steps of both services -/

/-- A step leaves the orders service alone, or it is one of a call there. -/
theorem step_orders {s s' : Services} {action : Action}
    (h : TradingServices.step isValidUuid p s l action = some (s', l')) :
    s'.orders = s.orders ∧ l' = l ∨
      ∃ own, OrdersTransactions.step p s.orders l own = some (s'.orders, l') ∧
        (action = .saga (.orders own) ∨ ∃ r, own = .reply r) := by
  cases action with
  | saga action =>
    obtain ⟨own, hown, haction⟩ := exists_step h
    exact Or.inr ⟨own, hown, haction.imp_left (congrArg Action.saga)⟩
  | accounts r =>
    cases l with
    | idle =>
      obtain ⟨⟨db, answer⟩, -, heq⟩ := Option.map_eq_some_iff.mp h
      obtain ⟨rfl, rfl⟩ := Prod.mk.inj heq
      exact Or.inl ⟨rfl, rfl⟩
    | _ => cases h

theorem wellFormed_step {s s' : Services} {action : Action} (hdb : WellFormed s.accounts)
    (h : TradingServices.step isValidUuid p s l action = some (s', l')) :
    WellFormed s'.accounts := by
  cases action with
  | saga action =>
    cases action with
    | orders own =>
      have hmap : ∃ r : Shared × Process, (⟨r.1, s.accounts⟩, r.2) = (s', l') := by
        cases own <;> first
          | exact (Option.map_eq_some_iff.mp h).imp fun _ hr => hr.2
          | cases h
      obtain ⟨r, heq⟩ := hmap
      obtain ⟨rfl, -⟩ := Prod.mk.inj heq
      exact hdb
    | balanceCall delivery message =>
      obtain ⟨balance, hpending, -⟩ := Option.bind_eq_some_iff.mp h
      rw [(exists_reply hpending h).2, deliver_cases.1]
      split
      · exact hdb
      · exact wellFormed_serve hdb
  | accounts r =>
    cases l with
    | idle =>
      obtain ⟨⟨db, answer⟩, hstep, heq⟩ := Option.map_eq_some_iff.mp h
      obtain ⟨rfl, -⟩ := Prod.mk.inj heq
      exact (accountsMachine_ledger hdb hstep).1
    | _ => cases h

/-! ### Cancellations that nothing hinders -/

/-- A number of units, and not below zero. -/
def isWhole (amount : ℚ) : Bool := decide (0 ≤ amount ∧ (roundDown amount / scale : ℚ) = amount)

/-- Makers are updated while they are open. What the order reserves when its unlock is due has
no more than eight decimals; the unlock gets through, passes the checks of the accounts
service, bears a key that is not in its ledger, and finds its amount locked. -/
def unhindered (isValidUuid : String → Bool) (orderId : Uuid) (c : TradingConfig)
    (e : Event Action) : Bool :=
  match c.procs e.proc, e.action with
  | .creating _ (.placing _ (.active w (.updating maker makerFilled))), .saga (.orders (.trade _)) =>
    decide (MakerLive c.shared.orders.store.db w maker makerFilled)
  | .cancelling request (.unlocking order), .saga (.orders .statement) =>
    decide (request.orderId ≠ orderId) || isWhole (reserveOf (mapOrderToItem order))
  | .cancelling request (.awaitingUnlock order), .saga (.balanceCall delivery _) =>
    decide (request.orderId ≠ orderId) || (decide (delivery ≠ .undelivered) &&
      takesEffect isValidUuid (unlockRequest request order) c.shared.accounts)
  | _, _ => true

/-- A run in which nothing hinders cancellations of the order. -/
abbrev TradingRun (isValidUuid : String → Bool) (orderId : Uuid) (c : TradingConfig)
    (es : List (Event Action)) (d : TradingConfig) : Prop :=
  (tradingSystem isValidUuid).Run (fun c e => unhindered isValidUuid orderId c e = true) c es d

/-- The orders service alone. -/
def ordersOf (c : TradingConfig) : OrdersConfig := ⟨c.shared.orders, c.procs⟩

theorem ordersOf_next {c d : TradingConfig} {e : Event Action}
    (hguard : unhindered isValidUuid orderId c e = true)
    (h : (tradingSystem isValidUuid).next c e = some d) :
    ordersOf d = ordersOf c ∨ ∃ own, ordersSystem.next (ordersOf c) ⟨e.proc, own⟩ =
      some (ordersOf d) ∧ Guard MakerLive (ordersOf c) ⟨e.proc, own⟩ := by
  obtain ⟨s, l, hs, rfl⟩ := System.next_eq_some.mp h
  rcases step_orders hs with ⟨horders, rfl⟩ | ⟨own, hown, haction⟩
  · refine Or.inl ?_
    simp only [ordersOf, horders, Function.update_eq_self]
  · refine Or.inr ⟨own, System.next_eq_some.mpr ⟨s.orders, l, hown, rfl⟩, ?_⟩
    intro create recordId w maker makerFilled tradeId htrade hl
    have hl' : c.procs e.proc = .creating create
        (.placing recordId (.active w (.updating maker makerFilled))) := hl
    obtain rfl : own = .trade tradeId := htrade
    rcases haction with haction | ⟨r, hr⟩
    · simpa [unhindered, hl', haction, ordersOf] using hguard
    · cases hr

/-- What holds in such a run, whatever the calls of others have done. -/
structure Standing (orderId : Uuid) (c : TradingConfig) : Prop where
  live : OrdersInvariant (fun _ => True) CallLive (ordersOf c)
  paired : OrdersInvariant Paired (fun _ l => CallPaired l) (ordersOf c)
  accounts : WellFormed c.shared.accounts
  once : CancelledOnce (ordersOf c)
  whole : ∀ p request order, c.procs p = .cancelling request (.awaitingUnlock order) →
    request.orderId = orderId → isWhole (reserveOf (mapOrderToItem order)) = true ∧
      ∃ units, unlockAmount order = .digits 0 (units + 1)

theorem standing_initial : Standing orderId initial where
  live := ordersInvariant_initial trivial trivial
  paired := ordersInvariant_initial (fun _ _ h => (Option.some_ne_none _ h.symm).elim) trivial
  accounts := wellFormed_empty
  once := ⟨fun _ _ _ h => (Option.some_ne_none _ h.symm).elim,
    fun _ _ _ _ _ _ h => (Option.some_ne_none _ h.symm).elim⟩
  whole _ _ _ h := Process.noConfusion h

theorem standing_next {c d : TradingConfig} {e : Event Action} (hc : Standing orderId c)
    (hguard : unhindered isValidUuid orderId c e = true)
    (h : (tradingSystem isValidUuid).next c e = some d) : Standing orderId d := by
  have haccounts : WellFormed d.shared.accounts := by
    obtain ⟨s, l, hs, rfl⟩ := System.next_eq_some.mp h
    exact wellFormed_step hc.accounts hs
  have hwhole : ∀ p request order, d.procs p = .cancelling request (.awaitingUnlock order) →
      request.orderId = orderId → isWhole (reserveOf (mapOrderToItem order)) = true ∧
        ∃ units, unlockAmount order = .digits 0 (units + 1) := by
    intro p request order hp horder
    obtain ⟨s, l, hs, rfl⟩ := System.next_eq_some.mp h
    by_cases hpe : p = e.proc
    · simp only [hpe, Function.update_self] at hp
      subst hp
      rcases step_orders hs with ⟨-, hl⟩ | ⟨own, hown, haction⟩
      · exact hc.whole e.proc request order hl.symm horder
      · obtain ⟨progress, progress', hl, hl', hlast⟩ := lastStep_of_step hown rfl
        obtain ⟨-, rfl⟩ := Process.cancelling.inj hl'
        generalize s.orders = orders' at hlast
        cases hlast with
        | asked hamount =>
          rcases haction with haction | ⟨r, hr⟩
          · refine ⟨?_, _, hamount⟩
            simpa [unhindered, hl, haction, horder] using hguard
          · cases hr
    · simp only [Function.update_of_ne hpe] at hp
      exact hc.whole p request order hp horder
  rcases ordersOf_next hguard h with hsame | ⟨own, hnext, hmeets⟩
  · refine ⟨?_, ?_, haccounts, ?_, hwhole⟩ <;> rw [hsame]
    · exact hc.live
    · exact hc.paired
    · exact hc.once
  · exact ⟨ordersInvariant_next preserved_live hc.live hmeets hnext,
      ordersInvariant_next preserved_paired hc.paired (preserved_live.meets hmeets) hnext,
      haccounts, cancelledOnce_next hc.live hc.once hnext, hwhole⟩

/-! ### Releases -/

theorem unlockAmount_eq :
    unlockAmount order = (BigNumber.finite (reserveOf (mapOrderToItem order))).toFixedHalfUp := by
  cases hside : order.side <;> simp [unlockAmount, reserveOf, mapOrderToItem, hside]

/-- A whole reserve is unlocked as it is. -/
theorem unlockAmount_of_isWhole (h : isWhole (reserveOf (mapOrderToItem order)) = true) :
    ∃ units : ℕ, unlockAmount order = .digits 0 units ∧
      (units / scale : ℚ) = reserveOf (mapOrderToItem order) := by
  obtain ⟨hnonneg, hunits⟩ := of_decide_eq_true h
  have hround : roundHalfUp (reserveOf (mapOrderToItem order)) =
      roundDown (reserveOf (mapOrderToItem order)) := by
    conv_lhs => rw [← hunits]
    exact roundHalfUp_units _
  refine ⟨(roundDown (reserveOf (mapOrderToItem order))).toNat, ?_, ?_⟩
  · simp [unlockAmount_eq, BigNumber.toFixedHalfUp, not_lt.mpr hnonneg, abs_of_nonneg hnonneg,
      hround]
  · rw [← Int.cast_natCast, Int.toNat_of_nonneg (roundDown_nonneg hnonneg)]
    exact hunits

theorem normalizeCurrency_reserve (h : item.pair ∈ supportedPairs) :
    normalizeCurrency (reserveCurrency item) = .ok (reserveCurrency item) := by
  obtain ⟨hbase, hquote⟩ := normalizeCurrency_of_supported h
  unfold reserveCurrency
  split
  · exact hquote
  · exact hbase

/-- An unlock of a whole reserve that moves funds moves the reserve. -/
theorem movesReserve_serve {before : AccountsDb} (hdb : WellFormed before)
    (huser : order.userId = request.userId) (hpair : order.pair ∈ supportedPairs)
    (hwhole : isWhole (reserveOf (mapOrderToItem order)) = true)
    (heffect : takesEffect isValidUuid (unlockRequest request order) before = true) :
    MovesReserve (mapOrderToItem order) before
      (serve isValidUuid (unlockRequest request order) before).1 := by
  obtain ⟨params, account, hparams, -, hprepared, hserve⟩ := serve_of_takesEffect heffect
  obtain ⟨huserId, hcurrency, hamount, -⟩ := validateRequest_eq_ok hparams
  obtain ⟨units, hunlock, hunits⟩ := unlockAmount_of_isWhole hwhole
  have hparamsUser : params.userId = order.userId := huserId.trans huser.symm
  have hparamsCurrency : params.currency = reserveCurrency (mapOrderToItem order) :=
    Except.ok.inj (hcurrency.symm.trans (@normalizeCurrency_reserve (mapOrderToItem order) hpair))
  have hparamsAmount : params.amount.units = units := by
    have htext : (unlockAmount order).toNumeric = some params.amount.units := hamount
    rw [hunlock] at htext
    exact (Option.some.inj htext).symm
  have howner : account.owner = (order.userId, reserveCurrency (mapOrderToItem order)) :=
    hprepared.owner.trans (Prod.ext hparamsUser hparamsCurrency)
  have hbefore : accountBalances before order.userId (reserveCurrency (mapOrderToItem order)) =
      some account.balances := by
    obtain ⟨hu, hcur⟩ := Prod.mk.inj howner
    have hfound := hdb.findByUserAndCurrency_of_id (hprepared.findById hdb)
    rw [hu, hcur] at hfound
    rw [accountBalances, hfound, Option.map_some]
  refine ⟨units, account.balances, by rw [Int.cast_natCast]; exact hunits, hbefore, ?_⟩
  have hafter := @accountBalances_commit before order.userId
    (reserveCurrency (mapOrderToItem order)) .unlock params account before hdb hprepared
  have hchange : BalanceOperation.unlock.mutation.change params.amount =
      ((units : ℤ), -(units : ℤ)) := Prod.ext hparamsAmount (congrArg Neg.neg hparamsAmount)
  rw [if_pos (hprepared.owner.symm.trans howner), hbefore, Option.getD_some, hchange] at hafter
  rw [hserve]
  exact hafter

/-! ### Runs -/

/-- A call has cancelled the order and returned, and the order reserved something. -/
def ReturnedReserve (orderId : Uuid) (c : TradingConfig) : Prop :=
  ∃ p request item, c.procs p = .cancelling request (.returned item) ∧ request.orderId = orderId ∧
    reserveOf item ≠ 0

theorem returned_final {s : Services} {action : Action} :
    (tradingSystem isValidUuid).step p s (.cancelling request (.returned item)) action = none := by
  cases action with
  | saga action =>
    cases action with
    | orders own => cases own <;> rfl
    | balanceCall delivery message => rfl
  | accounts r => rfl

/-- A call that waits for the reply to its unlock goes on only by that reply. -/
theorem step_awaitingUnlock {s s' : Services} {action : Action}
    (h : TradingServices.step isValidUuid p s (.cancelling request (.awaitingUnlock order)) action =
      some (s', l')) :
    l' = .cancelling request (.returned (mapOrderToItem order)) ∧
      ∃ delivery message, action = .saga (.balanceCall delivery message) ∧
        s'.accounts = (deliver isValidUuid delivery message (unlockRequest request order)
          s.accounts).1 := by
  cases action with
  | saga action =>
    cases action with
    | orders own => cases own <;> cases h
    | balanceCall delivery message =>
      have hsaga : OrderSagas.step isValidUuid p s (.cancelling request (.awaitingUnlock order))
          (.balanceCall delivery message) = some (s', l') := h
      obtain ⟨hstep, haccounts⟩ := exists_reply rfl hsaga
      obtain ⟨-, rfl⟩ := Prod.mk.inj (Option.some.inj hstep)
      exact ⟨rfl, delivery, message, rfl, haccounts⟩
  | accounts r => cases h

variable {c d : TradingConfig} {e : Event Action} {es : List (Event Action)}

/-- A step of a call that waits for its unlock releases what its order reserves. -/
theorem release_next (hc : Standing orderId c)
    (hguard : unhindered isValidUuid orderId c e = true)
    (h : (tradingSystem isValidUuid).next c e = some d)
    (hwaiting : c.procs e.proc = .cancelling request (.awaitingUnlock order))
    (horder : request.orderId = orderId) :
    d.procs e.proc = .cancelling request (.returned (mapOrderToItem order)) ∧
      reserveOf (mapOrderToItem order) ≠ 0 ∧ releases isValidUuid orderId ⟨c, e, d⟩ = true ∧
        MovesReserve (mapOrderToItem order) c.shared.accounts d.shared.accounts := by
  obtain ⟨s, l, hs, rfl⟩ := System.next_eq_some.mp h
  obtain ⟨hwhole, units, hamount⟩ := hc.whole e.proc request order hwaiting horder
  have hcancelled : Cancelled c.shared.orders.store.db request (mapOrderToItem order) :=
    hc.once.cancelled e.proc request _ (by rw [ordersOf, hwaiting]; rfl)
  have hstep : TradingServices.step isValidUuid e.proc c.shared
      (.cancelling request (.awaitingUnlock order)) e.action = some (s, l) := hwaiting ▸ hs
  obtain ⟨rfl, delivery, message, haction, haccounts⟩ := step_awaitingUnlock hstep
  obtain ⟨hdelivery, heffect⟩ : delivery ≠ .undelivered ∧
      takesEffect isValidUuid (unlockRequest request order) c.shared.accounts = true := by
    simpa [unhindered, hwaiting, haction, horder] using hguard
  refine ⟨Function.update_self .., fun hzero => ?_, ?_, ?_⟩
  · obtain ⟨units', hamount', hunits⟩ := unlockAmount_of_isWhole hwhole
    rw [hamount] at hamount'
    obtain ⟨-, rfl⟩ := NumericText.digits.inj hamount'
    rw [hzero, div_eq_zero_iff] at hunits
    rcases hunits with hunits | hscale
    · exact absurd hunits (Nat.cast_ne_zero.mpr units.succ_ne_zero)
    · exact scale_pos.ne' hscale
  · simp [releases, hwaiting, haction, horder, hdelivery, heffect]
  · rw [haccounts, deliver_cases.1, if_neg hdelivery]
    exact movesReserve_serve hc.accounts hcancelled.userId_eq
      (hcancelled.paired hc.paired.orders) hwhole heffect

/-- A release is such a step. -/
theorem awaitingUnlock_of_releases (h : releases isValidUuid orderId ⟨c, e, d⟩ = true) :
    ∃ request order, c.procs e.proc = .cancelling request (.awaitingUnlock order) ∧
      request.orderId = orderId := by
  unfold releases at h
  split at h
  · next request order delivery message hwaiting haction =>
    simp only [Bool.and_eq_true, decide_eq_true_eq] at h
    exact ⟨request, order, hwaiting, h.1.1⟩
  · cases h

/-- A reserve is released exactly when the cancellation of its order returns. -/
theorem releases_iff (hc : Standing orderId c)
    (hguard : unhindered isValidUuid orderId c e = true)
    (h : (tradingSystem isValidUuid).next c e = some d) :
    (ReturnedReserve orderId c → ReturnedReserve orderId d) ∧
      (releases isValidUuid orderId ⟨c, e, d⟩ = true ↔
        ¬ReturnedReserve orderId c ∧ ReturnedReserve orderId d) := by
  have hkept (q : ℕ) (hq : q ≠ e.proc) : d.procs q = c.procs q := System.next_procs_of_ne h hq
  refine ⟨?_, fun hrel => ⟨?_, ?_⟩, ?_⟩
  · rintro ⟨q, request, item, hq, hreturned⟩
    refine ⟨q, request, item, ?_, hreturned⟩
    rw [hkept q, hq]
    rintro rfl
    obtain ⟨s, l, hs, -⟩ := System.next_eq_some.mp h
    rw [hq, returned_final] at hs
    cases hs
  · rintro ⟨q, request', item', hq, horder', -⟩
    obtain ⟨request, order, hwaiting, horder⟩ := awaitingUnlock_of_releases hrel
    have hsame : q = e.proc := hc.once.unique q e.proc request' item' request
      (mapOrderToItem order) (by rw [ordersOf, hq]; rfl) (by rw [ordersOf, hwaiting]; rfl)
      (horder'.trans horder.symm)
    rw [hsame, hwaiting] at hq
    cases hq
  · obtain ⟨request, order, hwaiting, horder⟩ := awaitingUnlock_of_releases hrel
    obtain ⟨hreturned, hne, -⟩ := release_next hc hguard h hwaiting horder
    exact ⟨e.proc, request, _, hreturned, horder, hne⟩
  · rintro ⟨hnot, q, request, item, hq, horder, hne⟩
    by_cases hqe : q = e.proc
    · subst hqe
      obtain ⟨s, l, hs, rfl⟩ := System.next_eq_some.mp h
      simp only [Function.update_self] at hq
      subst hq
      rcases step_orders hs with ⟨-, hl⟩ | ⟨own, hown, haction⟩
      · exact absurd ⟨e.proc, request, item, hl.symm, horder, hne⟩ hnot
      · obtain ⟨progress, progress', hl, hl', hlast⟩ := lastStep_of_step hown rfl
        obtain ⟨-, rfl⟩ := Process.cancelling.inj hl'
        generalize s.orders = orders' at hlast
        cases hlast with
        | @spared order hamount =>
          -- the amount of the order is whole, and not positive
          rcases haction with haction | ⟨r, hr⟩
          · have hwhole : isWhole (reserveOf (mapOrderToItem order)) = true := by
              simpa [unhindered, hl, haction, horder] using hguard
            obtain ⟨units, hunits, hreserve⟩ := unlockAmount_of_isWhole hwhole
            cases units with
            | zero => exact absurd (by rw [← hreserve, Nat.cast_zero, zero_div]) hne
            | succ units => exact absurd hunits (hamount units)
          · cases hr
        | answered => exact (release_next hc hguard h hl horder).2.2.1
    · rw [hkept q hqe] at hq
      exact absurd ⟨q, request, item, hq, horder, hne⟩ hnot

/-- A cancellation returns the reserve once: in a run in which nothing hinders cancellations of
the order, a call that has cancelled it and returned has moved what it reserved to available,
once. -/
theorem released_once {userId : Uuid} {idempotencyKey : String}
    (h : TradingRun isValidUuid orderId initial es d)
    (hreturned : d.procs p = .cancelling ⟨orderId, userId, idempotencyKey⟩ (.returned item)) :
    ReleasedOnce isValidUuid es item := by
  have hinitial : Standing orderId initial := standing_initial
  have hstanding := h.transitions_invariant hinitial
    fun _ _ _ hc hguard hnext => standing_next hc hguard hnext
  have hd : Standing orderId d := h.invariant hinitial
    fun _ _ _ hc hguard hnext => standing_next hc hguard hnext
  have hitem : cancelledItem (d.procs p) = some (⟨orderId, userId, idempotencyKey⟩, item) := by
    rw [hreturned]
    rfl
  have horder : item.orderId = orderId := (hd.once.cancelled p _ item hitem).orderId_eq
  -- the call that has returned is the only one that has cancelled the order
  have honly : ∀ q request item', d.procs q = .cancelling request (.returned item') →
      request.orderId = orderId → item' = item := by
    intro q request item' hq hrequest
    obtain rfl := hd.once.unique q p request item' _ item (by rw [ordersOf, hq]; rfl) hitem hrequest
    rw [hq] at hreturned
    exact Cancelling.returned.inj (Process.cancelling.inj hreturned).2
  rw [← horder] at h hstanding honly
  obtain ⟨-, hnone, hone⟩ := h.length_filter_transitions standing_initial
    (fun _ _ _ hc hguard hnext => standing_next hc hguard hnext)
    (fun _ _ _ hc hguard hnext => releases_iff hc hguard hnext)
  refine ⟨?_, fun t ht hrel => ?_⟩
  · split
    · next hzero =>
      refine hnone (Or.inr ?_)
      rintro ⟨q, request, item', hq, hrequest, hne⟩
      exact hne (honly q request item' hq hrequest ▸ hzero)
    · next hne =>
      refine hone ?_ ⟨p, _, item, hreturned, horder.symm, hne⟩
      rintro ⟨q, request, item', hq, -⟩
      cases hq
  · obtain ⟨hc, hguard, hnext⟩ := hstanding t ht
    obtain ⟨request, order, hwaiting, hrequest⟩ := awaitingUnlock_of_releases hrel
    obtain ⟨hafter, -, -, hmoves⟩ := release_next hc hguard hnext hwaiting hrequest
    obtain ⟨earlier, later, -, -, -, hlater⟩ := System.exec_transition h.executes ht
    have hstays := System.exec_procs_of_final hlater fun s a => by
      rw [hafter]
      exact returned_final
    rw [hafter] at hstays
    rwa [honly _ _ _ hstays hrequest] at hmoves

/-! ### One key for two cancellations -/

/-- Steps of the orders service, where balance calls are answered. -/
def answering (events : List (Event OrdersTransactions.Action)) : List (Event Action) :=
  events.map fun e => match e.action with
    | .reply _ => ⟨e.proc, .saga (.balanceCall .answered "")⟩
    | action => ⟨e.proc, .saga (.orders action)⟩

/-- The buyer deposits a thousand coins. -/
def funding : List (Event Action) :=
  [⟨0, .accounts (.call .creditDeposit "account"
    ⟨buyer, .usdt, ⟨1000 * 10 ^ 8, by decide⟩, "deposit", none⟩)⟩]

/-- A bid that rests in the book. -/
def bid (p : ℕ) (idempotencyKey : String) (orderId : Uuid) : List (Event Action) :=
  answering (opening p { buyOrder with idempotencyKey } orderId ++ statements p 8)

def cancellation (p : ℕ) (orderId : Uuid) : List (Event Action) :=
  answering ([⟨p, .cancelOrder ⟨orderId, buyer, "cancel"⟩⟩] ++ statements p 9 ++ [⟨p, .reply .ok⟩])

def cancelledBid : List (Event Action) := funding ++ bid 1 "first" "a" ++ cancellation 2 "a"

/-- The response to the cancellation of a bid. -/
def returnedBid (orderId : Uuid) : OrderItem :=
  ⟨orderId, buyer, ⟨.eth, .usdt⟩, .buy, .limit, 100 * 10 ^ 8, 10 ^ 8, 0, 10 ^ 8, .cancelled⟩

theorem cancelledBid_executes :
    ((tradingSystem knowsBuyer).exec initial cancelledBid).isSome = true := by decide +kernel

theorem cancelledBid_unhindered :
    ((tradingSystem knowsBuyer).transitions initial cancelledBid).all
      (fun t => unhindered knowsBuyer "a" t.before t.event) = true := by decide +kernel

theorem cancelledBid_returns :
    (((tradingSystem knowsBuyer).exec initial cancelledBid).get cancelledBid_executes).procs 2 =
      .cancelling ⟨"a", buyer, "cancel"⟩ (.returned (returnedBid "a")) := by decide +kernel

theorem released_once_cancelledBid : ReleasedOnce knowsBuyer cancelledBid (returnedBid "a") :=
  released_once (.of_transitions (Option.some_get cancelledBid_executes).symm
    (List.all_eq_true.mp cancelledBid_unhindered)) cancelledBid_returns

/-- The buyer's second cancellation bears the key of the first. -/
def reusedKey : List (Event Action) := cancelledBid ++ bid 3 "second" "b" ++ cancellation 4 "b"

theorem reusedKey_executes :
    ((tradingSystem knowsBuyer).exec initial reusedKey).isSome = true := by decide +kernel

/-- The accounts service takes the second unlock for a replay of the first: the cancellation
returns, and the hundred coins of the second bid stay locked. -/
theorem not_released_reusedKey : ¬∀ isValidUuid es d p orderId userId idempotencyKey item,
    (tradingSystem isValidUuid).exec initial es = some d →
      d.procs p = .cancelling ⟨orderId, userId, idempotencyKey⟩ (.returned item) →
        ReleasedOnce isValidUuid es item := by
  intro h
  have hreleased := (h _ _ _ 4 "b" buyer "cancel" (returnedBid "b")
    (Option.some_get reusedKey_executes).symm (by decide +kernel)).once
  have hcount : (((tradingSystem knowsBuyer).transitions initial reusedKey).filter
      (releases knowsBuyer "b")).length = 0 := by decide +kernel
  have hreserve : reserveOf (returnedBid "b") ≠ 0 := by decide +kernel
  rw [if_neg hreserve] at hreleased
  exact absurd (hcount.symm.trans hreleased) zero_ne_one

end EtherTrade.CancelReleaseLaws
