import EtherTrade.OrderFillLaws

/-!
# Final statuses under concurrency

What becomes of an order that is filled or cancelled, over every interleaving of
createOrder and cancelOrder calls.
-/

namespace EtherTrade.OrderStatusLaws

open KeyedRows AccountsSchema OrdersSchema OrderBook MatchingEngine
open InterleavedProcesses ResourceLocks OrdersTransactions OrdersTransactionInvariants
open OrdersTransactionSteps OrdersTransactionRuns OrderFillLaws

variable {db : OrdersDb} {p q : ℕ} {s s' : Shared} {w : UnitOfWork} {maker : OrderbookEntry}
  {point : Point} {placing : Placing} {l l' : Process} {action : Action} {orderId : Uuid}
  {order : Order}

/-- The committed order can still be cancelled or matched. -/
def Live (db : OrdersDb) (orderId : Uuid) : Prop :=
  ∃ order, db.findById orderId = some order ∧ order.status ∈ OrderStatus.cancellable

/-- The order is committed with a status it is meant to keep. -/
def Terminal (db : OrdersDb) (orderId : Uuid) (order : Order) : Prop :=
  db.findById orderId = some order ∧ order.status ∈ OrderStatus.terminal

theorem Terminal.not_live (h : Terminal db orderId order) : ¬Live db orderId := by
  rintro ⟨live, hlive, hstatus⟩
  rw [h.1] at hlive
  obtain rfl := Option.some.inj hlive
  have hterminal := h.2
  revert hstatus hterminal
  cases order.status <;> decide

/-- The maker's committed order is open or partially filled. -/
def MakerLive : Condition := fun db _ maker _ =>
  ((db.findById maker.orderId).map Order.status).any fun status =>
    status ∈ OrderStatus.cancellable

instance (db : OrdersDb) (w : UnitOfWork) (maker : OrderbookEntry) (makerFilled : ℤ) :
    Decidable (MakerLive db w maker makerFilled) := inferInstanceAs (Decidable (_ = true))

theorem MakerLive.live {makerFilled : ℤ} (h : MakerLive db w maker makerFilled) :
    Live db maker.orderId := by
  cases hfind : db.findById maker.orderId with
  | none => simp [MakerLive, hfind] at h
  | some order => exact ⟨order, hfind, by simpa [MakerLive, hfind] using h⟩

/-- Every maker that the transaction updated can still be matched. -/
def CallLive (db : OrdersDb) : Process → Prop
  | .creating _ (.placing _ (.active w _)) => ∀ orderId, orderId ≠ w.takerOrder.id →
      (lookup Order.id w.rows orderId).isSome → Live db orderId
  | _ => True

theorem callLive_of_inert (h : Inert l) : CallLive db l := by
  unfold CallLive
  split
  · exact h.elim
  · trivial

private theorem placed_live {request : ValidRequest} {recordId : Uuid}
    (hlive : CallLive s.store.db (.creating request (.placing recordId (.active w point))))
    (hmeets : Meets MakerLive s.store.db
      (.creating request (.placing recordId (.active w point))) action)
    (h : ActiveStep p s w point action s' placing) :
    CallLive s'.store.db (.creating request (.placing recordId placing)) := by
  cases h with
  | quiet hstore =>
    intro orderId hne hrow
    rw [hstore]
    exact hlive orderId hne hrow
  | matched =>
    intro orderId hne hrow
    rw [UnitOfWork.fill_rows, lookup_write_updateExecution] at hrow
    split at hrow
    · next he =>
      rw [he]
      exact (hmeets _ _ _ _ _ _ rfl rfl).live
    · exact hlive orderId hne hrow
  | unmatched hnone =>
    obtain ⟨order, horder, -⟩ := (hmeets _ _ _ _ _ _ rfl rfl).live
    simp [UnitOfWork.findById, horder] at hnone
  | finished =>
    intro orderId hne hrow
    rw [UnitOfWork.finish_takerOrder] at hne
    rw [UnitOfWork.finish_rows, lookup_write_updateExecution, if_neg hne] at hrow
    exact hlive orderId hne hrow
  | committed hended =>
    refine callLive_of_inert ?_
    cases placing with
    | active u at' => exact absurd rfl (hended u at')
    | _ => trivial
  | aborted => trivial

theorem preserved_live : Preserved MakerLive (fun _ => True) CallLive where
  committed _ _ _ _ h := by
    obtain ⟨order, horder, -⟩ := h.live
    rw [MakerCommitted, horder]
    rfl
  own p s l action s' l' _ _ hlive hmeets h := by
    refine ⟨trivial, ?_⟩
    cases h with
    | quiet _ _ _ hinert => exact callLive_of_inert hinert
    | started =>
      intro orderId hne hrow
      exact absurd (lookup_singleton_isSome hrow) hne
    | placed hstep => exact placed_live hlive hmeets hstep
    | held => trivial
    | recorded => trivial
    | cancelled hinert => exact callLive_of_inert hinert
  others q s s' l hi hkeeps hlive := by
    unfold CallLive at hlive ⊢
    split at hlive
    · intro orderId hne hrow
      have hview : s'.store.db.findById orderId = s.store.db.findById orderId :=
        hkeeps.view_eq (hi.1.locked orderId hrow)
      rw [Live, hview]
      exact hlive orderId hne hrow
    · trivial

/-- A call that commits has not written a terminal order, and has not traded with it. -/
theorem lookup_rows_of_terminal {w : UnitOfWork} (hw : Holding p s w)
    (hlive : ∀ orderId, orderId ≠ w.takerOrder.id → (lookup Order.id w.rows orderId).isSome →
      Live s.store.db orderId) (h : Terminal s.store.db orderId order) :
    lookup Order.id w.rows orderId = none := by
  rw [← Option.not_isSome_iff_eq_none]
  intro hrow
  by_cases htaker : orderId = w.takerOrder.id
  · rw [htaker] at h
    cases hw.fresh.symm.trans h.1
  · exact h.not_live (hlive orderId htaker hrow)

/-- The trades that name an order. -/
def tradesOf (db : OrdersDb) (orderId : Uuid) : List TradeExecutedEvent :=
  db.trades.filter fun e => e.Names orderId

/-- A step leaves a terminal order as it is, and adds no trade that names it. -/
theorem terminal_processStep (hi : ProcessInvariant p s l) (hlive : CallLive s.store.db l)
    (h : ProcessStep p s l action s' l') (hterminal : Terminal s.store.db orderId order) :
    s'.store.db.findById orderId = some order ∧
      tradesOf s'.store.db orderId = tradesOf s.store.db orderId := by
  cases h with
  | quiet horders hevents =>
    constructor
    · rw [OrdersDb.findById, horders]
      exact hterminal.1
    · simp only [tradesOf, OrdersDb.trades, hevents]
  | started => exact ⟨hterminal.1, rfl⟩
  | held => exact ⟨hterminal.1, rfl⟩
  | recorded => exact ⟨hterminal.1, rfl⟩
  | @cancelled request updated event =>
    obtain ⟨⟨-, live, horder, rfl⟩, hevent⟩ := hi
    obtain ⟨hfind, hid, hstatus⟩ := cancellableOrder_eq_some horder
    have hne : live.id ≠ orderId := by
      rintro rfl
      rw [hid] at hterminal
      exact hterminal.not_live ⟨live, hfind, hstatus⟩
    have hrow : lookup Order.id [{ live with status := .cancelled }] orderId = none := by
      simp [lookup, hne]
    refine ⟨findById_install.trans (by rw [hrow]; exact hterminal.1), ?_⟩
    change (s.store.db.install _ [event]).trades.filter _ = _
    rw [trades_install]
    simp [hevent, tradesOf]
  | @placed _ _ w _ _ _ _ hstep =>
    cases hstep with
    | quiet hstore =>
      rw [hstore]
      exact ⟨hterminal.1, rfl⟩
    | matched => exact ⟨hterminal.1, rfl⟩
    | unmatched => exact ⟨hterminal.1, rfl⟩
    | finished => exact ⟨hterminal.1, rfl⟩
    | aborted => exact ⟨hterminal.1, rfl⟩
    | committed =>
      obtain ⟨hw, hbooked⟩ := hi
      have hrow := lookup_rows_of_terminal hw hlive hterminal
      refine ⟨findById_install.trans (by rw [hrow]; exact hterminal.1), ?_⟩
      have hnew : (w.outboxList.filterMap OutboxEvent.trade).filter
          (fun e => e.Names orderId) = [] := by
        refine List.filter_eq_nil_iff.mpr fun e he hnames => ?_
        have hreported : unnumbered e ∈ reported w.trades := by
          rw [← hbooked]
          exact List.mem_append_left _ (List.mem_map_of_mem he)
        simpa [hrow] using hw.named _ hreported orderId (of_decide_eq_true hnames)
      change (s.store.db.install w.rows w.outboxList).trades.filter _ = _
      rw [trades_install, List.filter_append, hnew, List.append_nil]
      rfl

/-! ### Runs -/

/-- Final statuses are final: in a run in which every update of a maker finds its
committed order open or partially filled, an order that is committed as filled or cancelled
stays as it is, and no trade that names it is committed later. -/
theorem terminal_absorbing {c d : OrdersConfig} {es fs : List (Event Action)}
    (h : OrdersRun MakerLive initial es c) (h' : OrdersRun MakerLive c fs d)
    (hterminal : Terminal c.shared.store.db orderId order) :
    d.shared.store.db.findById orderId = some order ∧
      tradesOf d.shared.store.db orderId = tradesOf c.shared.store.db orderId := by
  have hinv := run_invariant preserved_live (ordersInvariant_initial trivial trivial) h
  refine (h'.invariant (I := fun e => OrdersInvariant (fun _ => True) CallLive e ∧
    e.shared.store.db.findById orderId = some order ∧
      tradesOf e.shared.store.db orderId = tradesOf c.shared.store.db orderId)
    ⟨hinv, hterminal.1, rfl⟩ ?_).2
  rintro e event e' ⟨hinv, hfind, htrades⟩ hguard hnext
  refine ⟨ordersInvariant_next preserved_live hinv hguard hnext, ?_⟩
  obtain ⟨s, l, hs, rfl⟩ := System.next_eq_some.mp hnext
  obtain ⟨hfind', htrades'⟩ := terminal_processStep (hinv.processes event.proc)
    (hinv.calls event.proc) (step_cases hs) ⟨hfind, hterminal.2⟩
  exact ⟨hfind', htrades'.trans htrades⟩

/-- A seller offers two units and a buyer takes one; then the seller cancels the rest. -/
def cancelledRest : List (Event Action) :=
  offer ++ opening 1 (limitOrder "first" .buy 100 1) "a" ++ statements 1 4 ++
    [⟨1, .trade "t"⟩] ++ statements 1 7 ++ [⟨2, .cancelOrder ⟨"m", "seller", "cancel"⟩⟩] ++
      statements 2 8

/-- A second buyer comes after the cancellation. -/
def laterTaker : List (Event Action) :=
  statements 2 1 ++ [⟨2, .reply .ok⟩] ++ opening 3 (limitOrder "second" .buy 100 1) "b" ++
    statements 3 8

theorem cancelledRest_executes : (ordersSystem.exec initial cancelledRest).isSome = true := by
  decide +kernel

theorem laterTaker_executes :
    (ordersSystem.exec ((ordersSystem.exec initial cancelledRest).get cancelledRest_executes)
      laterTaker).isSome = true := by decide +kernel

theorem terminal_absorbing_laterTaker :
    let c := (ordersSystem.exec initial cancelledRest).get cancelledRest_executes
    let d := (ordersSystem.exec c laterTaker).get laterTaker_executes
    d.shared.store.db.findById "m" = some ⟨"m", "seller", ⟨.eth, .usdt⟩, .sell, .limit,
        10000000000, 200000000, 100000000, 100000000, .cancelled, "seller"⟩ ∧
      tradesOf d.shared.store.db "m" = tradesOf c.shared.store.db "m" :=
  terminal_absorbing
    (ordersRun_of_meetsCondition (Option.some_get _).symm (by decide +kernel))
    (ordersRun_of_meetsCondition (Option.some_get _).symm (by decide +kernel))
    ⟨by decide +kernel, by decide⟩

/-- The buyer reads the book, and the seller cancels before the buyer takes the offer. -/
def cancelledOffer : List (Event Action) :=
  offer ++ opening 1 (limitOrder "first" .buy 100 1) "a" ++ statements 1 2 ++
    [⟨2, .cancelOrder ⟨"m", "seller", "cancel"⟩⟩] ++ statements 2 8

def staleTaker : List (Event Action) := statements 1 2 ++ [⟨1, .trade "t"⟩] ++ statements 1 7

theorem cancelledOffer_executes : (ordersSystem.exec initial cancelledOffer).isSome = true := by
  decide +kernel

theorem staleTaker_executes :
    (ordersSystem.exec ((ordersSystem.exec initial cancelledOffer).get cancelledOffer_executes)
      staleTaker).isSome = true := by decide +kernel

/-- The update of the maker names it by its id alone: the cancelled order becomes
partially filled, and a trade with it is committed. -/
theorem terminal_overwritten_staleTaker : ¬∀ es fs c d orderId order,
    ordersSystem.exec initial es = some c → ordersSystem.exec c fs = some d →
      Terminal c.shared.store.db orderId order →
        d.shared.store.db.findById orderId = some order ∧
          tradesOf d.shared.store.db orderId = tradesOf c.shared.store.db orderId := by
  intro h
  have hkept := h _ _ _ _ "m" ⟨"m", "seller", ⟨.eth, .usdt⟩, .sell, .limit, 10000000000, 200000000,
    0, 200000000, .cancelled, "seller"⟩ (Option.some_get cancelledOffer_executes).symm
    (Option.some_get staleTaker_executes).symm ⟨by decide +kernel, by decide⟩
  have hstatus : (((ordersSystem.exec ((ordersSystem.exec initial cancelledOffer).get
      cancelledOffer_executes) staleTaker).get staleTaker_executes).shared.store.db.findById
        "m").map Order.status = some .partiallyFilled := by decide +kernel
  rw [hkept.1] at hstatus
  exact absurd hstatus (by decide)

end EtherTrade.OrderStatusLaws
