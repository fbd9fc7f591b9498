import EtherTrade.OrderFillLaws

/-!
# The events that a transaction of the orders service commits

A transaction that places an order emits the event that it is placed, then those of its trades,
then those of the orders that are filled; the rows it commits say of these orders what the
events say. A transaction that cancels an order emits one event.
-/

namespace EtherTrade.EmittedOrderEvents

open KeyedRows AccountsSchema OrdersSchema OrderBook MatchingEngine
open InterleavedProcesses ResourceLocks OrdersTransactions OrdersTransactionInvariants
open OrdersTransactionSteps OrdersTransactionRuns OrderFillLaws

variable {db : OrdersDb} {p : ℕ} {s s' : Shared} {w : UnitOfWork} {maker : OrderbookEntry}
  {point point' : Point} {placing : Placing} {l l' : Process} {action : Action} {order : Order}
  {events : List OutboxEvent}

/-! ### The order of events -/

/-- The event that the order is placed, and then events of trades. -/
def Opens (w : UnitOfWork) (events : List OutboxEvent) : Prop :=
  ∃ levelTotalQuantity sequenceId executed,
    events = orderPlacedEvent w.takerOrder levelTotalQuantity sequenceId :: executed ∧
      ∀ event ∈ executed, event.trade.isSome

def Emitted (w : UnitOfWork) : Point → Prop
  | .sequencing => w.outboxList = []
  | .totalling _ => w.outboxList = []
  | .committing => ∃ opening, Opens w opening ∧ w.outboxList = opening ++ w.orderFilledEvents
  | _ => Opens w w.outboxList

def EmittedIn : Placing → Prop
  | .active w point => Emitted w point
  | _ => True

def EmittedBy : Process → Prop
  | .creating _ (.placing _ placing) => EmittedIn placing
  | .cancelling _ (.committing updated event) => ∃ levelTotalQuantity sequenceId,
      event = orderCancelledEvent updated levelTotalQuantity sequenceId
  | _ => True

theorem Opens.append {trade : MatchedTrade} {sequenceId : ℕ} (h : Opens w events) :
    Opens w (events ++ [tradeExecutedEvent trade sequenceId]) := by
  obtain ⟨levelTotalQuantity, placedId, executed, rfl, hexecuted⟩ := h
  refine ⟨levelTotalQuantity, placedId, executed ++ [tradeExecutedEvent trade sequenceId], rfl,
    fun event hevent => ?_⟩
  rcases List.mem_append.mp hevent with hold | hnew
  · exact hexecuted event hold
  · rw [List.mem_singleton.mp hnew]
    rfl

/-- A unit of work emits its events in this order. -/
theorem emitted_activeStep (h : activeStep p s w point action = some (s', placing))
    (hw : Emitted w point) : EmittedIn placing := by
  cases action with
  | abort =>
    obtain ⟨-, rfl⟩ := activeStep_abort h
    trivial
  | commitUnacknowledged =>
    cases point with
    | committing =>
      obtain ⟨rfl, rfl⟩ := Prod.mk.inj (Option.some.inj h)
      trivial
    | reading ids => cases ids <;> cases h
    | numbering rest => cases rest <;> cases h
    | _ => cases h
  | trade tradeId =>
    cases point with
    | updating maker makerFilled =>
      have hnext : Emitted (w.fill s.store.db maker makerFilled tradeId)
          (if w.makerStatus maker = .filled then .removing maker
            else .caching maker (w.newMakerRemaining maker)) := by
        split <;> exact hw
      simp only [activeStep] at h
      split at h
      · obtain ⟨rfl, rfl⟩ := Prod.mk.inj (Option.some.inj h)
        exact hnext
      · split at h
        · obtain ⟨rfl, rfl⟩ := Prod.mk.inj (Option.some.inj h)
          exact hnext
        · cases h
    | reading ids => cases ids <;> cases h
    | numbering rest => cases rest <;> cases h
    | _ => cases h
  | statement =>
    cases point with
    | totalling n =>
      obtain ⟨rfl, rfl⟩ := Prod.mk.inj (Option.some.inj h)
      have hnone : w.outboxList = [] := hw
      refine ⟨s.store.valkey.getLevelTotalQuantity w.takerOrder.pair w.takerOrder.side
        w.takerOrder.price, n, [], ?_, fun event hevent => absurd hevent List.not_mem_nil⟩
      rw [UnitOfWork.emit, hnone]
      rfl
    | numbering rest =>
      cases rest with
      | nil =>
        obtain ⟨rfl, rfl⟩ := Prod.mk.inj (Option.some.inj h)
        exact ⟨w.outboxList, hw, rfl⟩
      | cons trade rest =>
        obtain ⟨rfl, rfl⟩ := Prod.mk.inj (Option.some.inj h)
        exact Opens.append hw
    | reading ids =>
      cases ids <;> obtain ⟨rfl, rfl⟩ := Prod.mk.inj (Option.some.inj h) <;> exact hw
    | visiting =>
      simp only [activeStep] at h
      split at h <;> obtain ⟨rfl, rfl⟩ := Prod.mk.inj (Option.some.inj h) <;> exact hw
    | updatingTaker =>
      obtain ⟨rfl, rfl⟩ := Prod.mk.inj (Option.some.inj h)
      split <;> exact hw
    | committing =>
      obtain ⟨rfl, rfl⟩ := Prod.mk.inj (Option.some.inj h)
      trivial
    | updating maker makerFilled => cases h
    | _ =>
      obtain ⟨rfl, rfl⟩ := Prod.mk.inj (Option.some.inj h)
      exact hw
  | _ =>
    cases point with
    | reading ids => cases ids <;> cases h
    | numbering rest => cases rest <;> cases h
    | _ => cases h

theorem emittedBy_of_inert (h : Inert l) : EmittedBy l := by
  unfold EmittedBy
  split
  · next placing =>
    cases placing with
    | active w point => exact h.elim
    | _ => trivial
  · exact h.elim
  · trivial

theorem emittedBy_step (h : step p s l action = some (s', l')) (hl : EmittedBy l) :
    EmittedBy l' := by
  cases step_cases h with
  | quiet _ _ _ hinert => exact emittedBy_of_inert hinert
  | started => rfl
  | @placed request recordId w point =>
    have hcreating : creatingStep p s request.val (.placing recordId (.active w point)) action =
        (activeStep p s w point action).map fun r => (r.1, .placing recordId r.2) := by
      cases action <;> rfl
    obtain ⟨⟨s₁, progress⟩, hstep, heq⟩ := Option.map_eq_some_iff.mp h
    rw [hcreating] at hstep
    obtain ⟨⟨s₂, placing'⟩, hactive, heq'⟩ := Option.map_eq_some_iff.mp hstep
    cases heq'
    cases heq
    exact emitted_activeStep hactive hl
  | held => trivial
  | recorded => exact ⟨_, _, rfl⟩
  | cancelled hinert => exact emittedBy_of_inert hinert

/-! ### The rows of filled orders -/

/-- A maker that was filled keeps the version that its last update returned, and so does the
taker; nothing negative is traded. -/
structure Settled (w : UnitOfWork) (point : Point) : Prop where
  makers : ∀ order ∈ w.makerOrdersUpdated, order.status = .filled →
    order.id ≠ w.takerOrder.id ∧ order.remainingAmount = 0 ∧
      lookup Order.id w.rows order.id = some order
  taker : finished point = true →
    lookup Order.id w.rows w.takerOrder.id = some w.updatedTaker ∧
      w.updatedTaker.status = w.takerStatus
  trades : ∀ trade ∈ w.trades, 0 ≤ trade.quantity

def CallSettled : Process → Prop
  | .creating _ (.placing _ (.active w point)) => Settled w point
  | _ => True

/-- Rows that account for their amounts, and trades that are not negative. -/
structure SettledDb (db : OrdersDb) : Prop where
  accounted : Accounted db
  trades : ∀ trade ∈ db.trades, 0 ≤ trade.quantity

theorem settled_start : Settled (.start order) .sequencing where
  makers _ h := absurd h List.not_mem_nil
  taker h := by cases h
  trades _ h := absurd h List.not_mem_nil

/-- A filled maker that is met again is left as it is, since nothing of it is left to match. -/
theorem fill_again {makerFilled : ℤ} (hnonneg : 0 ≤ w.currentTakerRemaining)
    (hstatus : order.status = .filled) (hremaining : order.remainingAmount = 0)
    (hversion : (order.filledAmount + w.matchAmount maker, order.remainingAmount) =
      (makerFilled, maker.remainingAmount)) :
    UnitOfWork.executed order makerFilled (w.newMakerRemaining maker) (w.makerStatus maker) =
      order := by
  obtain ⟨hfilled, hentry⟩ := Prod.mk.inj hversion
  rw [hremaining] at hentry
  have hmatch : w.matchAmount maker = 0 := by
    rw [UnitOfWork.matchAmount, ← hentry]
    exact min_eq_right hnonneg
  have hnew : w.newMakerRemaining maker = 0 := by
    rw [UnitOfWork.newMakerRemaining, hmatch, ← hentry, sub_zero]
  rw [UnitOfWork.executed, UnitOfWork.makerStatus, if_pos hnew, hnew, ← hfilled, hmatch, add_zero,
    ← hstatus, ← hremaining]

theorem settled_fill {makerFilled : ℤ} {tradeId : Uuid} (hw : Holding p s w)
    (hdb : Accounted s.store.db) (ha : Accounts s.store.db w (.updating maker makerFilled))
    (hs : Settled w (.updating maker makerFilled))
    (hcurrent : MakerCurrent s.store.db w maker makerFilled)
    (hunfinished : finished point' = false) :
    Settled (w.fill s.store.db maker makerFilled tradeId) point' := by
  obtain ⟨hcommitted, hversion⟩ := hcurrent
  obtain ⟨base, hbase⟩ := Option.isSome_iff_exists.mp hcommitted
  obtain ⟨row, hrow, hvalues⟩ := Option.map_eq_some_iff.mp hversion
  have hne : maker.orderId ≠ w.takerOrder.id := by
    intro he
    rw [he, hw.fresh] at hbase
    cases hbase
  have hid : row.id = maker.orderId := findById_id hrow
  have hupdated : w.updateExecution s.store.db maker.orderId makerFilled
      (w.newMakerRemaining maker) (w.makerStatus maker) =
        some (UnitOfWork.executed row makerFilled (w.newMakerRemaining maker)
          (w.makerStatus maker)) := by
    rw [UnitOfWork.updateExecution, hrow, Option.map_some]
  refine ⟨fun order horder hstatus => ?_, fun h => ?_, fun trade htrade => ?_⟩
  · rw [UnitOfWork.fill_takerOrder, UnitOfWork.fill_rows, lookup_write_updateExecution, hupdated]
    have hmem : order ∈ w.makerOrdersUpdated ∨ order = UnitOfWork.executed row makerFilled
        (w.newMakerRemaining maker) (w.makerStatus maker) := by
      simp only [UnitOfWork.fill, hupdated, Option.toList_some, List.mem_append,
        List.mem_singleton] at horder
      exact horder
    rcases hmem with hold | rfl
    · obtain ⟨hother, hremaining, hlookup⟩ := hs.makers order hold hstatus
      refine ⟨hother, hremaining, ?_⟩
      split
      · next he =>
        rw [UnitOfWork.findById, ← he, hlookup, Option.some_or] at hrow
        obtain rfl := Option.some.inj hrow
        rw [fill_again ha.remaining_nonneg hstatus hremaining hvalues]
      · exact hlookup
    · have hnew : w.newMakerRemaining maker = 0 := by
        by_contra hnew
        rw [UnitOfWork.executed, UnitOfWork.makerStatus, if_neg hnew] at hstatus
        cases hstatus
      exact ⟨fun he => hne (hid.symm.trans he), hnew, if_pos hid⟩
  · rw [hunfinished] at h
    cases h
  · rw [UnitOfWork.fill_trades] at htrade
    rcases List.mem_append.mp htrade with hold | hnew
    · exact hs.trades trade hold
    · rw [List.mem_singleton.mp hnew]
      have hmoved := moved_of_findById hw hdb ha hne hbase hrow
      exact le_min ha.remaining_nonneg ((Prod.mk.inj hvalues).2 ▸ hmoved.remaining_nonneg)

theorem settled_finish (hw : Holding p s w) (hs : Settled w .updatingTaker) :
    Settled (w.finish s.store.db) point' := by
  obtain ⟨taker, htaker⟩ := Option.isSome_iff_exists.mp hw.own
  have hupdated : w.updateExecution s.store.db w.takerOrder.id w.currentTakerFilled
      w.currentTakerRemaining w.takerStatus =
        some (UnitOfWork.executed taker w.currentTakerFilled w.currentTakerRemaining
          w.takerStatus) := by
    rw [UnitOfWork.updateExecution, UnitOfWork.findById, htaker, Option.some_or, Option.map_some]
  refine ⟨fun order horder hstatus => ?_, fun _ => ?_, hs.trades⟩
  · obtain ⟨hother, hremaining, hlookup⟩ := hs.makers order horder hstatus
    refine ⟨hother, hremaining, ?_⟩
    rw [UnitOfWork.finish_rows, lookup_write_updateExecution, if_neg hother]
    exact hlookup
  · rw [UnitOfWork.finish_rows, UnitOfWork.finish_takerOrder, lookup_write_updateExecution,
      if_pos rfl, UnitOfWork.finish, hupdated]
    exact ⟨rfl, rfl⟩

theorem callSettled_of_inert (h : Inert l) : CallSettled l := by
  unfold CallSettled
  split
  · exact h.elim
  · trivial

private theorem placed_settled (hdb : Accounted s.store.db) (hi : Holding p s w ∧ Booked w point)
    (ha : Accounts s.store.db w point) (hs : Settled w point) {request : ValidRequest}
    {recordId : Uuid} (hmeets : Meets MakerCurrent s.store.db
      (.creating request (.placing recordId (.active w point))) action)
    (h : ActiveStep p s w point action s' placing) :
    CallSettled (.creating request (.placing recordId placing)) := by
  cases h with
  | quiet _ hfinished => exact ⟨hs.makers, fun h => hs.taker (hfinished ▸ h), hs.trades⟩
  | matched _ _ hunfinished =>
    exact settled_fill (s := s) hi.1 hdb ha hs (hmeets _ _ _ _ _ _ rfl rfl) hunfinished
  | unmatched hnone =>
    have hcurrent := hmeets _ _ _ _ _ _ rfl rfl
    simp [MakerCurrent, hnone] at hcurrent
  | finished => exact settled_finish hi.1 hs
  | committed hended =>
    refine callSettled_of_inert ?_
    cases placing with
    | active u at' => exact absurd rfl (hended u at')
    | _ => trivial
  | aborted => trivial

/-- What a unit of work commits as trades is what it has matched. -/
theorem trades_committing (hbooked : Booked w .committing) :
    (w.outboxList.filterMap OutboxEvent.trade).map unnumbered = reported w.trades := by
  simpa [Booked, pending, reported] using hbooked

theorem trades_nonneg_step (hdb : SettledDb s.store.db) (hi : ProcessInvariant p s l)
    (hs : CallSettled l) (h : ProcessStep p s l action s' l') :
    ∀ trade ∈ s'.store.db.trades, 0 ≤ trade.quantity := by
  cases h with
  | quiet _ hevents =>
    rw [OrdersDb.trades, hevents]
    exact hdb.trades
  | placed hstep =>
    cases hstep with
    | quiet hstore =>
      rw [hstore]
      exact hdb.trades
    | committed =>
      intro trade htrade
      rw [commit, trades_install] at htrade
      rcases List.mem_append.mp htrade with hold | hnew
      · exact hdb.trades trade hold
      · have hmem := List.mem_map_of_mem (f := unnumbered) hnew
        rw [trades_committing hi.2] at hmem
        obtain ⟨matched, hmatched, heq⟩ := List.mem_map.mp hmem
        have hquantity : matched.quantity = trade.quantity :=
          congrArg TradeExecutedEvent.quantity heq
        rw [← hquantity]
        exact hs.trades matched hmatched
    | _ => exact hdb.trades
  | @cancelled _ _ event _ _ hinert =>
    have hnone : [event].filterMap OutboxEvent.trade = [] := by simp [hi.2]
    rw [commit, trades_install, hnone, List.append_nil]
    exact hdb.trades
  | _ => exact hdb.trades

theorem preserved_settled :
    Preserved MakerCurrent SettledDb fun db l => CallAccounts db l ∧ CallSettled l where
  committed _ _ _ _ h := h.1
  own p s l action s' l' hdb hi hcall hmeets h := by
    obtain ⟨haccounted, haccounts⟩ :=
      preserved_accounted.own p s l action s' l' hdb.accounted hi hcall.1 hmeets h
    refine ⟨⟨haccounted, trades_nonneg_step hdb hi hcall.2 h⟩, haccounts, ?_⟩
    cases h with
    | quiet _ _ _ hinert => exact callSettled_of_inert hinert
    | started => exact settled_start
    | placed hstep => exact placed_settled hdb.accounted hi hcall.1 hcall.2 hmeets hstep
    | held => trivial
    | recorded => trivial
    | cancelled hinert => exact callSettled_of_inert hinert
  others q s s' l hi hkeeps hcall :=
    ⟨preserved_accounted.others q s s' l hi hkeeps hcall.1, hcall.2⟩

/-- The rows of a transaction say of each filled order what its event says. -/
theorem lookup_of_filled (hs : Settled w .committing)
    (hmem : order ∈ w.updatedTaker :: w.makerOrdersUpdated) (hstatus : order.status = .filled) :
    lookup Order.id w.rows order.id = some order := by
  rcases List.mem_cons.mp hmem with rfl | hmaker
  · obtain ⟨hlookup, -⟩ := hs.taker rfl
    rwa [(lookup_mem hlookup).2]
  · exact (hs.makers order hmaker hstatus).2.2

end EtherTrade.EmittedOrderEvents
