import EtherTrade.OrdersBookWrites

/-!
# What a failed call leaves behind

A call that runs alone and fails at any step. The database undoes a transaction that
fails, and the book keeps what the call did to it: nothing a call has changed is changed
back later.
-/

namespace EtherTrade.OrderAtomicityLaws

open KeyedRows AccountsSchema OrdersSchema OrderBook MatchingEngine SortedSets
open InterleavedProcesses ResourceLocks OrdersTransactions OrdersTransactionInvariants
open OrdersTransactionSteps RestingOrders MatchingLoop OpenOrders OrdersBookWrites
open TradeSettlement (TradingSymbol)

variable {p : ℕ} {s s' : Shared} {l l' : Process} {action : Action} {w : UnitOfWork}
  {point : Point} {placing : Placing} {orderId : Uuid}

/-- The rows, the outbox and the book are those of before. -/
structure Unchanged (before after : OrdersStore) : Prop where
  orders : after.db.orders = before.db.orders
  outboxEvents : after.db.outboxEvents = before.db.outboxEvents
  orderbooks : after.valkey.orderbooks = before.valkey.orderbooks
  orderDetails : after.valkey.orderDetails = before.valkey.orderDetails

/-- The step writes the book, or commits. -/
def placingTouches : Point → Action → Prop
  | .removing _, .statement => True
  | .deleting _, .statement => True
  | .caching _ _, .statement => True
  | .adding, .statement => True
  | .detailing, .statement => True
  | .committing, .statement => True
  | .committing, .commitUnacknowledged => True
  | _, _ => False

/-- A call writes the book or commits; a cancellation writes it for an order that is open. -/
def Touches : Process → Action → Prop
  | .creating _ (.placing _ (.active _ point)), action => placingTouches point action
  | .cancelling _ (.removing order), .statement => order.status ∈ OrderStatus.cancellable
  | .cancelling _ (.deleting order), .statement => order.status ∈ OrderStatus.cancellable
  | .cancelling _ (.committing _ _), .statement => True
  | .cancelling _ (.committing _ _), .commitUnacknowledged => True
  | _, _ => False

/-- Some step of a process that runs alone does. -/
def Touched (p : ℕ) (s : Shared) (l : Process) (actions : List Action) : Prop :=
  ∃ before action after s' l', actions = before ++ action :: after ∧
    ordersSystem.runAlone p s l before = some (s', l') ∧ Touches l' action

/-! ### Damage -/

/-- Something that the process will not write any more differs from before. -/
inductive Damaged (before : OrdersStore) (s : Shared) (l : Process) : Prop
  | committed (horders : s.store.db.orders ≠ before.db.orders) (hended : ¬Running l)
  | listed (pair : TradingSymbol) (side : OrderSide) (orderId : Uuid)
      (hscore : (s.store.valkey.orderbooks pair side).score orderId ≠
        (before.valkey.orderbooks pair side).score orderId) (hkept : ¬Lists l orderId)
  | detailed (orderId : Uuid) (hdetails : s.store.valkey.orderDetails orderId ≠
      before.valkey.orderDetails orderId) (hkept : ¬Details l orderId)

variable {before : OrdersStore}

theorem Damaged.step (hd : Damaged before s l) (h : step p s l action = some (s', l')) :
    Damaged before s' l' := by
  have hframes := frames_step h
  cases hd with
  | committed horders hended =>
    exact .committed (hframes.orders hended ▸ horders) fun hrunning =>
      hended (hframes.running hrunning)
  | listed pair side orderId hscore hkept =>
    exact .listed pair side orderId (hframes.scores pair side orderId hkept ▸ hscore)
      fun hl => hkept (hframes.lists orderId hl)
  | detailed orderId hdetails hkept =>
    exact .detailed orderId (hframes.orderDetails orderId hkept ▸ hdetails)
      fun hd => hkept (hframes.details orderId hd)

theorem Damaged.not_unchanged (hd : Damaged before s l) : ¬Unchanged before s.store := by
  intro h
  cases hd with
  | committed horders => exact horders h.orders
  | listed pair side orderId hscore => exact hscore (by rw [h.orderbooks])
  | detailed orderId hdetails => exact hdetails (by rw [h.orderDetails])

/-! ### A call that has not touched anything -/

/-- The entries that the loop may visit are those of the book, each once. -/
structure Fresh (before : OrdersStore) (w : UnitOfWork) (entries : List OrderbookEntry) : Prop where
  nodup : (entries.map OrderbookEntry.orderId).Nodup
  current : Current (openBook before.db.findById) w.takerOrder.side entries

/-- What a transaction knows that has written nothing to the book. -/
def placingKnows (before : OrdersStore) (w : UnitOfWork) : Point → Prop
  | .sequencing => w.opposingOrders = []
  | .totalling _ => w.opposingOrders = []
  | .ranging => w.opposingOrders = []
  | .reading ids => (w.opposingOrders.map OrderbookEntry.orderId ++ ids).Nodup ∧
      Current (openBook before.db.findById) w.takerOrder.side w.opposingOrders ∧
        ∀ orderId ∈ ids, ∀ e, openBook before.db.findById orderId = some e →
          e.side = w.takerOrder.side.opposing
  | .visiting => Fresh before w w.opposingOrders
  | .finding maker => Fresh before w (maker :: w.opposingOrders) ∧ w.currentTakerRemaining ≠ 0
  | .updating maker _ => Fresh before w (maker :: w.opposingOrders) ∧ w.currentTakerRemaining ≠ 0
  | .removing maker => Fresh before w (maker :: w.opposingOrders)
  | .caching maker remainingAmount => Fresh before w (maker :: w.opposingOrders) ∧
      remainingAmount ≠ maker.remainingAmount
  | .deleting _ => False
  | .detailing => False
  | _ => True

/-- What a call knows that has written nothing to the book. -/
def Knows (before : OrdersStore) : Process → Prop
  | .creating _ (.placing _ (.active w point)) =>
    before.db.findById w.takerOrder.id = none ∧
      (lookup Order.id w.rows w.takerOrder.id).isSome ∧ placingKnows before w point
  | .cancelling request (.removing order) => before.db.findById request.orderId = some order
  | .cancelling request (.deleting order) =>
    before.db.findById request.orderId = some order ∧ order.status ∉ OrderStatus.cancellable
  | .cancelling request (.sequencing _) => cancellableOrder before.db request = none
  | .cancelling request (.totalling _ _) => cancellableOrder before.db request = none
  | .cancelling request (.updating _ _) => cancellableOrder before.db request = none
  | .cancelling _ (.recording _ _ _) => False
  | .cancelling _ (.committing _ _) => False
  | _ => True

structure Clean (before : OrdersStore) (s : Shared) (l : Process) : Prop where
  unchanged : Unchanged before s.store
  knows : Knows before l

theorem Unchanged.findById (h : Unchanged before s.store) :
    s.store.db.findById = before.db.findById := by
  funext orderId
  rw [OrdersDb.findById, h.orders, OrdersDb.findById]

theorem Unchanged.holds {book : Book} (h : Unchanged before s.store)
    (ha : Holds before.valkey book) : Holds s.store.valkey book :=
  ⟨ha.named, fun pair side orderId => h.orderbooks ▸ ha.listed pair side orderId,
    fun orderId => h.orderDetails ▸ ha.detailed orderId⟩

/-- A commit with a new row changes the rows. -/
theorem orders_install_ne {db : OrdersDb} {rows : List Order} {events : List OutboxEvent}
    (hnone : before.db.findById orderId = none) (hrow : (lookup Order.id rows orderId).isSome) :
    (db.install rows events).orders ≠ before.db.orders := by
  intro heq
  have hfind : (db.install rows events).findById orderId = before.db.findById orderId := by
    rw [OrdersDb.findById, heq, OrdersDb.findById]
  rw [findById_install, hnone, Option.or_eq_none_iff] at hfind
  rw [hfind.1] at hrow
  cases hrow

/-- A step that writes neither rows nor events nor the book. -/
theorem Unchanged.of_eq (h : Unchanged before s.store)
    (hdb : s'.store.db.orders = s.store.db.orders ∧
      s'.store.db.outboxEvents = s.store.db.outboxEvents)
    (hvalkey : s'.store.valkey.orderbooks = s.store.valkey.orderbooks ∧
      s'.store.valkey.orderDetails = s.store.valkey.orderDetails) : Unchanged before s'.store :=
  ⟨hdb.1.trans h.orders, hdb.2.trans h.outboxEvents, hvalkey.1.trans h.orderbooks,
    hvalkey.2.trans h.orderDetails⟩

theorem Fresh.sublist {entries rest : List OrderbookEntry} (h : Fresh before w entries)
    (hrest : rest.Sublist entries) : Fresh before w rest :=
  ⟨h.nodup.sublist (hrest.map _), fun e he => h.current e (hrest.subset he)⟩

/-- The ids that are read name entries of the opposing side. -/
theorem reading_knows {v : Valkey} {book : Book} (h : Holds v book) {pair : TradingSymbol}
    {side : OrderSide} :
    (v.bestOpposingOrderIds pair side).Nodup ∧
      ∀ orderId ∈ v.bestOpposingOrderIds pair side, ∀ e, book orderId = some e →
        e.side = side.opposing := by
  refine ⟨SortedSet.nodup_zrange _, fun orderId hmem e he => ?_⟩
  obtain ⟨e', he', -, hside⟩ := h.mem_ranked.mp
    ((SortedSet.mem_ranked _).mpr (SortedSet.mem_of_mem_zrange _ hmem))
  rw [he] at he'
  exact Option.some.inj he' ▸ hside

/-- An id of the book that is read becomes an entry to visit. -/
theorem reading_next {entry : Option OrderbookEntry} {ids : List Uuid} {entries : List OrderbookEntry}
    {book : Book} {side : OrderSide} (hbook : entry = book orderId)
    (hnamed : ∀ e, book orderId = some e → e.orderId = orderId)
    (hnodup : (entries.map OrderbookEntry.orderId ++ orderId :: ids).Nodup)
    (hcurrent : Current book side entries)
    (hside : ∀ e, book orderId = some e → e.side = side.opposing) :
    ((entries ++ entry.toList).map OrderbookEntry.orderId ++ ids).Nodup ∧
      Current book side (entries ++ entry.toList) := by
  cases entry with
  | none =>
    rw [Option.toList_none, List.append_nil]
    exact ⟨hnodup.sublist (List.Sublist.append_left (List.sublist_cons_self _ _) _), hcurrent⟩
  | some e =>
    have he := hnamed e hbook.symm
    refine ⟨?_, fun x hx => ?_⟩
    · rw [Option.toList_some, List.map_append, List.map_singleton, he, List.append_assoc]
      exact hnodup
    · rcases List.mem_append.mp hx with hx | hx
      · exact hcurrent x hx
      · obtain rfl := List.mem_singleton.mp hx
        exact ⟨he.symm ▸ hbook.symm, hside x hbook.symm⟩

/-- What a step makes of a process that has touched nothing. -/
def Steps (before : OrdersStore) (touches : Prop) (s' : Shared) (l' : Process) : Prop :=
  (¬touches → Clean before s' l') ∧ (touches → Damaged before s' l')

theorem Steps.of_clean {touches : Prop} (hnot : ¬touches) (h : Clean before s' l') :
    Steps before touches s' l' := ⟨fun _ => h, fun ht => absurd ht hnot⟩

theorem Steps.of_damaged {touches : Prop} (ht : touches) (h : Damaged before s' l') :
    Steps before touches s' l' := ⟨fun hnot => absurd ht hnot, fun _ => h⟩

section Placing

variable {request : ValidRequest} {recordId : Uuid} {maker : OrderbookEntry}

theorem openBook_of_findById (h : before.db.findById orderId = none) :
    openBook before.db.findById orderId = none := by rw [openBook, h, Option.bind_none]

/-- A maker that may be visited is neither the taker nor one of the later ones. -/
theorem Fresh.notMem (h : Fresh before w (maker :: w.opposingOrders))
    (htaker : before.db.findById w.takerOrder.id = none) : ¬mayVisit w maker.orderId := by
  rintro (hmem | heq)
  · exact (List.nodup_cons.mp h.nodup).1 hmem
  · have hbook := (h.current maker List.mem_cons_self).1
    rw [heq, openBook_of_findById htaker] at hbook
    cases hbook

theorem clean_statement (ha : Holds before.valkey (openBook before.db.findById))
    (hc : Clean before s (.creating request (.placing recordId (.active w point))))
    (h : activeStep p s w point .statement = some (s', placing)) :
    Steps before (placingTouches point .statement) s'
      (.creating request (.placing recordId placing)) := by
  obtain ⟨hu, htaker, hown, hknows⟩ := hc
  have hholds := hu.holds ha
  cases point with
  | sequencing =>
    obtain ⟨rfl, rfl⟩ := Prod.mk.inj (Option.some.inj h)
    exact .of_clean id ⟨hu.of_eq ⟨rfl, rfl⟩ ⟨rfl, rfl⟩, htaker, hown, hknows⟩
  | totalling sequenceId =>
    obtain ⟨rfl, rfl⟩ := Prod.mk.inj (Option.some.inj h)
    exact .of_clean id ⟨hu, htaker, hown, hknows⟩
  | ranging =>
    obtain ⟨rfl, rfl⟩ := Prod.mk.inj (Option.some.inj h)
    have hread := @reading_knows _ _ hholds w.takerOrder.pair w.takerOrder.side
    have hempty : w.opposingOrders = [] := hknows
    refine .of_clean id ⟨hu, htaker, hown, ?_, fun e he => ?_, hread.2⟩
    · rw [hempty]
      exact hread.1
    · rw [hempty] at he
      exact absurd he List.not_mem_nil
  | reading ids =>
    obtain ⟨hnodup, hcurrent, hside⟩ := hknows
    cases ids with
    | nil =>
      obtain ⟨rfl, rfl⟩ := Prod.mk.inj (Option.some.inj h)
      rw [List.append_nil] at hnodup
      exact .of_clean id ⟨hu, htaker, hown, hnodup, hcurrent⟩
    | cons orderId ids =>
      obtain ⟨rfl, rfl⟩ := Prod.mk.inj (Option.some.inj h)
      obtain ⟨hnodup', hcurrent'⟩ := reading_next (hholds.getOrderDetails) (ha.named orderId)
        hnodup hcurrent (hside orderId List.mem_cons_self)
      exact .of_clean id ⟨hu, htaker, hown, hnodup', hcurrent',
        fun k hk => hside k (List.mem_cons_of_mem _ hk)⟩
  | visiting =>
    have hfresh : Fresh before w w.opposingOrders := hknows
    simp only [activeStep] at h
    split at h
    · obtain ⟨rfl, rfl⟩ := Prod.mk.inj (Option.some.inj h)
      exact .of_clean id ⟨hu, htaker, hown, trivial⟩
    · next maker rest hnext =>
      obtain ⟨rfl, rfl⟩ := Prod.mk.inj (Option.some.inj h)
      obtain ⟨hrest, hopen⟩ := nextMaker_sublist hnext
      have hnextFresh := hfresh.sublist hrest
      exact .of_clean id ⟨hu, htaker, hown, ⟨hnextFresh.nodup, hnextFresh.current⟩, hopen⟩
  | finding maker =>
    obtain ⟨rfl, rfl⟩ := Prod.mk.inj (Option.some.inj h)
    exact .of_clean id ⟨hu, htaker, hown, hknows⟩
  | removing maker =>
    obtain ⟨rfl, rfl⟩ := Prod.mk.inj (Option.some.inj h)
    have hfresh : Fresh before w (maker :: w.opposingOrders) := hknows
    obtain ⟨hbook, hside⟩ := hfresh.current maker List.mem_cons_self
    refine .of_damaged trivial (.listed maker.pair w.takerOrder.side.opposing maker.orderId ?_
      (hfresh.notMem htaker))
    have hgone : (((setValkey s (s.store.valkey.zremOrder maker.orderId maker.pair
        w.takerOrder.side.opposing)).store.valkey.orderbooks maker.pair
          w.takerOrder.side.opposing).score maker.orderId) = none := by
      rw [setValkey, Valkey.zremOrder, orderbooks_setOrderbook, if_pos ⟨rfl, rfl⟩,
        SortedSet.score_zrem, if_pos rfl]
    have hlisted : (before.valkey.orderbooks maker.pair w.takerOrder.side.opposing).score
        maker.orderId = some (bookScore maker) := by
      rw [ha.listed, hbook, Option.filter_some, if_pos (by simp [hside]), Option.map_some]
    rw [hgone, hlisted]
    exact (Option.some_ne_none _).symm
  | caching maker remainingAmount =>
    obtain ⟨rfl, rfl⟩ := Prod.mk.inj (Option.some.inj h)
    obtain ⟨hfresh, hne⟩ := hknows
    obtain ⟨hbook, -⟩ := hfresh.current maker List.mem_cons_self
    have hdetails : s.store.valkey.orderDetails maker.orderId = .full maker := by
      rw [hholds.detailed, hbook]
      rfl
    have hwritten : (s.store.valkey.updateRemainingAmount maker.orderId
        remainingAmount).orderDetails maker.orderId = .full { maker with remainingAmount } := by
      simp [Valkey.updateRemainingAmount, hdetails]
    refine .of_damaged trivial (.detailed maker.orderId (fun heq => ?_) (hfresh.notMem htaker))
    rw [← hu.orderDetails, hdetails] at heq
    exact hne (congrArg OrderbookEntry.remainingAmount
      (OrderDetails.full.inj (hwritten.symm.trans heq)))
  | updatingTaker =>
    obtain ⟨rfl, rfl⟩ := Prod.mk.inj (Option.some.inj h)
    refine .of_clean id ⟨hu, htaker, ?_, ?_⟩
    · rw [UnitOfWork.finish_rows, UnitOfWork.finish_takerOrder, lookup_write_updateExecution,
        if_pos rfl, UnitOfWork.updateExecution, Option.isSome_map, UnitOfWork.findById,
        Option.isSome_or, hown, Bool.true_or]
    · split <;> trivial
  | adding =>
    obtain ⟨rfl, rfl⟩ := Prod.mk.inj (Option.some.inj h)
    refine .of_damaged trivial (.listed w.takerOrder.pair w.takerOrder.side w.takerOrder.id ?_ id)
    have hadded : ((setValkey s (s.store.valkey.zaddOrder w.restingEntry)).store.valkey.orderbooks
        w.takerOrder.pair w.takerOrder.side).score w.takerOrder.id =
          some (bookScore w.restingEntry) := by
      have hset : (s.store.valkey.zaddOrder w.restingEntry).orderbooks w.takerOrder.pair
          w.takerOrder.side = _ := orderbooks_setOrderbook.trans (if_pos ⟨rfl, rfl⟩)
      rw [setValkey, hset]
      exact (SortedSet.score_zadd _).trans (if_pos rfl)
    rw [hadded, ha.listed, openBook_of_findById htaker]
    exact Option.some_ne_none _
  | numbering rest =>
    cases rest <;> obtain ⟨rfl, rfl⟩ := Prod.mk.inj (Option.some.inj h) <;>
      exact .of_clean id ⟨hu.of_eq ⟨rfl, rfl⟩ ⟨rfl, rfl⟩, htaker, hown, trivial⟩
  | committing =>
    obtain ⟨rfl, rfl⟩ := Prod.mk.inj (Option.some.inj h)
    exact .of_damaged trivial (.committed (orders_install_ne htaker hown) id)
  | updating maker makerFilled => cases h
  | deleting maker => exact hknows.elim
  | detailing => exact hknows.elim

theorem clean_active (ha : Holds before.valkey (openBook before.db.findById))
    (hc : Clean before s (.creating request (.placing recordId (.active w point))))
    (h : activeStep p s w point action = some (s', placing)) :
    Steps before (placingTouches point action) s' (.creating request (.placing recordId placing)) := by
  obtain ⟨hu, htaker, hown, hknows⟩ := hc
  cases action with
  | statement => exact clean_statement ha ⟨hu, htaker, hown, hknows⟩ h
  | abort =>
    obtain ⟨rfl, rfl⟩ := activeStep_abort h
    have hnot : ¬placingTouches point .abort := by cases point <;> exact id
    exact .of_clean hnot ⟨hu, trivial⟩
  | trade tradeId =>
    cases point with
    | updating maker makerFilled =>
      obtain ⟨hfresh, hopen⟩ := hknows
      have hne : w.takerOrder.id ≠ maker.orderId := fun heq => hfresh.notMem htaker (Or.inr heq.symm)
      have hown' : (lookup Order.id (w.fill s.store.db maker makerFilled tradeId).rows
          w.takerOrder.id).isSome := by
        rw [UnitOfWork.fill_rows, lookup_write_updateExecution, if_neg hne]
        exact hown
      have hknown : placingKnows before (w.fill s.store.db maker makerFilled tradeId)
          (if w.makerStatus maker = .filled then .removing maker
            else .caching maker (w.newMakerRemaining maker)) := by
        have hfresh' : Fresh before (w.fill s.store.db maker makerFilled tradeId)
            (maker :: w.opposingOrders) := ⟨hfresh.nodup, hfresh.current⟩
        split
        · exact hfresh'
        · next hleft =>
          refine ⟨hfresh', fun heq => hleft (if_pos ?_)⟩
          unfold UnitOfWork.newMakerRemaining UnitOfWork.matchAmount at heq ⊢
          omega
      simp only [activeStep] at h
      split at h
      · obtain ⟨rfl, rfl⟩ := Prod.mk.inj (Option.some.inj h)
        exact .of_clean id ⟨hu, htaker, hown', hknown⟩
      · split at h
        · obtain ⟨rfl, rfl⟩ := Prod.mk.inj (Option.some.inj h)
          exact .of_clean id ⟨hu.of_eq ⟨rfl, rfl⟩ ⟨rfl, rfl⟩, htaker, hown', hknown⟩
        · cases h
    | reading ids => cases ids <;> cases h
    | numbering rest => cases rest <;> cases h
    | _ => cases h
  | commitUnacknowledged =>
    cases point with
    | committing =>
      obtain ⟨rfl, rfl⟩ := Prod.mk.inj (Option.some.inj h)
      exact .of_damaged trivial (.committed (orders_install_ne htaker hown) id)
    | reading ids => cases ids <;> cases h
    | numbering rest => cases rest <;> cases h
    | _ => cases h
  | _ =>
    cases point with
    | reading ids => cases ids <;> cases h
    | numbering rest => cases rest <;> cases h
    | _ => cases h

theorem clean_placing (ha : Holds before.valkey (openBook before.db.findById))
    (hc : Clean before s (.creating request (.placing recordId placing))) {placing' : Placing}
    (h : placingStep p s request.val placing action = some (s', placing')) :
    Steps before (Touches (.creating request (.placing recordId placing)) action) s'
      (.creating request (.placing recordId placing')) := by
  cases placing with
  | inserting =>
    have hu := hc.unchanged
    cases action with
    | insert newId =>
      simp only [placingStep] at h
      split at h
      · obtain ⟨rfl, rfl⟩ := Prod.mk.inj (Option.some.inj h)
        exact .of_clean id ⟨hu.of_eq ⟨rfl, rfl⟩ ⟨rfl, rfl⟩, trivial⟩
      · next order hnew =>
        split at h
        · split at h <;> obtain ⟨rfl, rfl⟩ := Prod.mk.inj (Option.some.inj h)
          · exact .of_clean id ⟨hu.of_eq ⟨rfl, rfl⟩ ⟨rfl, rfl⟩, trivial⟩
          · next hfresh =>
            rw [hu.findById] at hfresh
            have hid := newOrder_id hnew
            have hnone : before.db.findById order.id = none := by simpa [hid] using hfresh
            exact .of_clean id ⟨hu.of_eq ⟨rfl, rfl⟩ ⟨rfl, rfl⟩, hnone,
              by simp [UnitOfWork.start, lookup], rfl⟩
        · cases h
    | abort =>
      obtain ⟨rfl, rfl⟩ := Prod.mk.inj (Option.some.inj h)
      exact .of_clean id ⟨hu.of_eq ⟨rfl, rfl⟩ ⟨rfl, rfl⟩, trivial⟩
    | _ => cases h
  | active w point => exact clean_active ha hc h
  | _ => cases action <;> cases h

/-- Steps outside of the transaction write neither rows nor events nor the book. -/
private theorem clean_quiet {touches : Prop} (hnot : ¬touches) (hu : Unchanged before s.store)
    (hdb : s'.store.db.orders = s.store.db.orders ∧
      s'.store.db.outboxEvents = s.store.db.outboxEvents)
    (hvalkey : s'.store.valkey = s.store.valkey) (hknows : Knows before l') :
    Steps before touches s' l' :=
  .of_clean hnot ⟨hu.of_eq hdb ⟨congrArg Valkey.orderbooks hvalkey,
    congrArg Valkey.orderDetails hvalkey⟩, hknows⟩

theorem clean_creating (ha : Holds before.valkey (openBook before.db.findById))
    {progress progress' : Creating} (hc : Clean before s (.creating request progress))
    (h : creatingStep p s request.val progress action = some (s', progress')) :
    Steps before (Touches (.creating request progress) action) s' (.creating request progress') := by
  have hu := hc.unchanged
  cases progress with
  | placing recordId placing =>
    have hplacing (h : (placingStep p s request.val placing action).map
        (fun r => (r.1, Creating.placing recordId r.2)) = some (s', progress')) :
        Steps before (Touches (.creating request (.placing recordId placing)) action) s'
          (.creating request progress') := by
      obtain ⟨⟨s₁, placing'⟩, hstep, heq⟩ := Option.map_eq_some_iff.mp h
      obtain ⟨rfl, rfl⟩ := Prod.mk.inj heq
      exact clean_placing ha hc hstep
    cases placing with
    | committed order =>
      cases action with
      | statement =>
        obtain ⟨rfl, rfl⟩ := Prod.mk.inj (Option.some.inj h)
        exact clean_quiet id hu ⟨rfl, rfl⟩ rfl trivial
      | abort =>
        obtain ⟨rfl, rfl⟩ := Prod.mk.inj (Option.some.inj h)
        exact clean_quiet id hu ⟨rfl, rfl⟩ rfl trivial
      | _ => exact hplacing h
    | rolledBack =>
      cases action with
      | statement =>
        obtain ⟨rfl, rfl⟩ := Prod.mk.inj (Option.some.inj h)
        exact clean_quiet id hu ⟨rfl, rfl⟩ rfl trivial
      | _ => exact hplacing h
    | _ => exact hplacing h
  | checking =>
    cases action with
    | statement =>
      simp only [creatingStep] at h
      split at h <;> obtain ⟨rfl, rfl⟩ := Prod.mk.inj (Option.some.inj h)
      · exact clean_quiet id hu ⟨rfl, rfl⟩ rfl trivial
      · refine clean_quiet id hu ⟨rfl, rfl⟩ rfl ?_
        unfold resolveRecord
        split
        · trivial
        · trivial
        · split <;> trivial
    | abort =>
      obtain ⟨rfl, rfl⟩ := Prod.mk.inj (Option.some.inj h)
      exact clean_quiet id hu ⟨rfl, rfl⟩ rfl trivial
    | _ => cases h
  | recording =>
    cases action with
    | insert recordId =>
      simp only [creatingStep] at h
      split at h <;> obtain ⟨rfl, rfl⟩ := Prod.mk.inj (Option.some.inj h) <;>
        exact clean_quiet id hu ⟨rfl, rfl⟩ rfl trivial
    | abort =>
      obtain ⟨rfl, rfl⟩ := Prod.mk.inj (Option.some.inj h)
      exact clean_quiet id hu ⟨rfl, rfl⟩ rfl trivial
    | _ => cases h
  | awaitingLock recordId =>
    cases action with
    | reply reply =>
      cases reply <;> obtain ⟨rfl, rfl⟩ := Prod.mk.inj (Option.some.inj h) <;>
        exact clean_quiet id hu ⟨rfl, rfl⟩ rfl trivial
    | _ => cases h
  | awaitingUnlock recordId =>
    cases action with
    | reply reply =>
      obtain ⟨rfl, rfl⟩ := Prod.mk.inj (Option.some.inj h)
      exact clean_quiet id hu ⟨rfl, rfl⟩ rfl trivial
    | _ => cases h
  | _ => cases action <;> cases h <;> exact clean_quiet id hu ⟨rfl, rfl⟩ rfl trivial

end Placing

section Cancelling

variable {request : CancelOrderRequest}

theorem zremOrder_eq_self {v : Valkey} {pair : TradingSymbol} {side : OrderSide}
    (h : (v.orderbooks pair side).score orderId = none) :
    (v.zremOrder orderId pair side).orderbooks = v.orderbooks := by
  rw [Valkey.zremOrder, Valkey.setOrderbook, SortedSet.zrem_eq_self _ h]
  simp only [Function.update_eq_self]

theorem delOrder_eq_self {v : Valkey} (h : v.orderDetails orderId = .missing) :
    (v.delOrder orderId).orderDetails = v.orderDetails :=
  Function.update_eq_self_iff.mpr h.symm

theorem cancellableOrder_of_findById {db db' : OrdersDb} (h : db'.findById = db.findById) :
    cancellableOrder db' request = cancellableOrder db request := by
  rw [cancellableOrder, OrdersDb.findByIdAndUserId, h, cancellableOrder,
    OrdersDb.findByIdAndUserId]

/-- A row that is not open is not cancelled. -/
theorem cancellableOrder_eq_none {db : OrdersDb} {order : Order}
    (h : db.findById request.orderId = some order)
    (hstatus : order.status ∉ OrderStatus.cancellable) :
    cancellableOrder db request = none := by
  rw [cancellableOrder, OrdersDb.findByIdAndUserId, h]
  by_cases huser : order.userId = request.userId
  · simp [Option.filter_some, huser, hstatus]
  · simp [Option.filter_some, huser]

theorem clean_cancelling (ha : Holds before.valkey (openBook before.db.findById))
    {progress progress' : Cancelling} (hc : Clean before s (.cancelling request progress))
    (h : cancellingStep p s request progress action = some (s', progress')) :
    Steps before (Touches (.cancelling request progress) action) s'
      (.cancelling request progress') := by
  obtain ⟨hu, hknows⟩ := hc
  have hholds := hu.holds ha
  have habort (hnot : ¬Touches (.cancelling request progress) action)
      (h : some (rollback p s, Cancelling.thrown .infrastructure) = some (s', progress')) :
      Steps before (Touches (.cancelling request progress) action) s'
        (.cancelling request progress') := by
    cases h
    exact .of_clean hnot ⟨hu.of_eq ⟨rfl, rfl⟩ ⟨rfl, rfl⟩, trivial⟩
  cases progress with
  | finding =>
    cases action with
    | statement =>
      simp only [cancellingStep] at h
      split at h
      · cases h
        exact .of_clean id ⟨hu, trivial⟩
      · next order horder =>
        have hrow := (Option.filter_eq_some_iff.mp horder).1
        rw [hu.findById] at hrow
        split at h
        · cases h
          exact .of_clean id ⟨hu, trivial⟩
        · split at h <;> cases h
          · exact .of_clean id ⟨hu, trivial⟩
          · exact .of_clean id ⟨hu, hrow⟩
    | abort => exact habort id h
    | _ => cases h
  | removing order =>
    have hrow : before.db.findById request.orderId = some order := hknows
    have hbook : openBook before.db.findById request.orderId = openEntry order := by
      rw [openBook, hrow, Option.bind_some]
    cases action with
    | statement =>
      cases h
      by_cases hopen : order.status ∈ OrderStatus.cancellable
      · refine .of_damaged hopen (.listed order.pair order.side request.orderId ?_ id)
        have hset : (s.store.valkey.zremOrder request.orderId order.pair
            order.side).orderbooks order.pair order.side = _ :=
          orderbooks_setOrderbook.trans (if_pos ⟨rfl, rfl⟩)
        rw [setValkey, hset, SortedSet.score_zrem, if_pos rfl, ha.listed, hbook, openEntry,
          if_pos hopen, Option.filter_some, if_pos (by simp [entryOf]), Option.map_some]
        exact (Option.some_ne_none _).symm
      · have hnone : (s.store.valkey.orderbooks order.pair order.side).score request.orderId =
            none := by
          rw [hholds.listed, hbook, openEntry, if_neg hopen, Option.filter_none, Option.map_none]
        exact .of_clean hopen ⟨hu.of_eq ⟨rfl, rfl⟩ ⟨zremOrder_eq_self hnone, rfl⟩, hrow, hopen⟩
    | abort => exact habort id h
    | _ => cases h
  | deleting order =>
    obtain ⟨hrow, hclosed⟩ := hknows
    cases action with
    | statement =>
      cases h
      have hmissing : s.store.valkey.orderDetails request.orderId = .missing := by
        rw [hholds.detailed, openBook, hrow, Option.bind_some, openEntry, if_neg hclosed]
        rfl
      exact .of_clean hclosed ⟨hu.of_eq ⟨rfl, rfl⟩ ⟨rfl, delOrder_eq_self hmissing⟩,
        cancellableOrder_eq_none hrow hclosed⟩
    | abort => exact habort id h
    | _ => cases h
  | sequencing order =>
    cases action with
    | statement =>
      cases h
      exact .of_clean id ⟨hu.of_eq ⟨rfl, rfl⟩ ⟨rfl, rfl⟩, hknows⟩
    | abort => exact habort id h
    | _ => cases h
  | totalling order sequenceId =>
    cases action with
    | statement =>
      cases h
      exact .of_clean id ⟨hu, hknows⟩
    | abort => exact habort id h
    | _ => cases h
  | updating levelTotalQuantity sequenceId =>
    have hnone : cancellableOrder s.store.db request = none :=
      (cancellableOrder_of_findById hu.findById).trans hknows
    cases action with
    | statement =>
      simp only [cancellingStep, hnone] at h
      cases h
      exact .of_clean id ⟨hu.of_eq ⟨rfl, rfl⟩ ⟨rfl, rfl⟩, trivial⟩
    | abort => exact habort id h
    | _ => cases h
  | recording updated levelTotalQuantity sequenceId => exact hknows.elim
  | committing updated event => exact hknows.elim
  | unlocking cancelledOrder =>
    cases action with
    | statement =>
      simp only [cancellingStep] at h
      split at h <;> cases h <;> exact .of_clean id ⟨hu.of_eq ⟨rfl, rfl⟩ ⟨rfl, rfl⟩, trivial⟩
    | _ => cases h
  | _ => cases action <;> cases h <;> exact .of_clean id ⟨hu, trivial⟩

end Cancelling

theorem clean_step (ha : Holds before.valkey (openBook before.db.findById))
    (hc : Clean before s l) (h : step p s l action = some (s', l')) :
    Steps before (Touches l action) s' l' := by
  cases l with
  | idle =>
    cases action with
    | createOrder request =>
      simp only [step] at h
      split at h <;> cases h <;> exact .of_clean id ⟨hc.unchanged, trivial⟩
    | cancelOrder request =>
      cases h
      exact .of_clean id ⟨hc.unchanged, trivial⟩
    | passTime ms =>
      cases h
      exact .of_clean id ⟨hc.unchanged.of_eq ⟨rfl, rfl⟩ ⟨rfl, rfl⟩, trivial⟩
    | _ => cases h
  | refused exception => cases action <;> cases h
  | creating request progress =>
    obtain ⟨⟨s₁, progress'⟩, hstep, heq⟩ := Option.map_eq_some_iff.mp h
    obtain ⟨rfl, rfl⟩ := Prod.mk.inj heq
    exact clean_creating ha hc hstep
  | cancelling request progress =>
    obtain ⟨⟨s₁, progress'⟩, hstep, heq⟩ := Option.map_eq_some_iff.mp h
    obtain ⟨rfl, rfl⟩ := Prod.mk.inj heq
    exact clean_cancelling ha hc hstep

/-! ### Runs -/

theorem Damaged.run (hd : Damaged before s l) {actions : List Action}
    (h : ordersSystem.runAlone p s l actions = some (s', l')) : Damaged before s' l' := by
  induction actions generalizing s l with
  | nil =>
    obtain ⟨rfl, rfl⟩ := Prod.mk.inj (Option.some.inj h)
    exact hd
  | cons action actions ih =>
    obtain ⟨r, hstep, hrest⟩ := Option.bind_eq_some_iff.mp h
    exact ih (hd.step hstep) hrest

theorem not_touched_nil : ¬Touched p s l [] := by
  rintro ⟨first, touching, after, s', l', heq, -⟩
  simp at heq

theorem touched_cons {actions : List Action} {r : Shared × Process}
    (hstep : ordersSystem.step p s l action = some r) :
    Touched p s l (action :: actions) ↔ Touches l action ∨ Touched p r.1 r.2 actions := by
  constructor
  · rintro ⟨first, touching, after, s', l', heq, hrun, htouches⟩
    cases first with
    | nil =>
      obtain ⟨rfl, rfl⟩ := List.cons.inj heq
      obtain ⟨rfl, rfl⟩ := Prod.mk.inj (Option.some.inj hrun)
      exact Or.inl htouches
    | cons head first =>
      obtain ⟨rfl, hrest⟩ := List.cons.inj heq
      rw [System.runAlone, hstep, Option.bind_some] at hrun
      exact Or.inr ⟨first, touching, after, s', l', hrest, hrun, htouches⟩
  · rintro (htouches | ⟨first, touching, after, s', l', rfl, hrun, htouches⟩)
    · exact ⟨[], action, actions, s, l, rfl, rfl, htouches⟩
    · refine ⟨action :: first, touching, after, s', l', rfl, ?_, htouches⟩
      rw [System.runAlone, hstep, Option.bind_some]
      exact hrun

theorem clean_run (ha : Holds before.valkey (openBook before.db.findById))
    (hc : Clean before s l) {actions : List Action}
    (h : ordersSystem.runAlone p s l actions = some (s', l')) :
    Steps before (Touched p s l actions) s' l' := by
  induction actions generalizing s l with
  | nil =>
    obtain ⟨rfl, rfl⟩ := Prod.mk.inj (Option.some.inj h)
    exact .of_clean not_touched_nil hc
  | cons action actions ih =>
    obtain ⟨r, hstep, hrest⟩ := Option.bind_eq_some_iff.mp h
    have hnext := clean_step ha hc hstep
    rw [touched_cons hstep]
    by_cases htouches : Touches l action
    · exact .of_damaged (Or.inl htouches) ((hnext.2 htouches).run hrest)
    · have hsteps := ih (hnext.1 htouches) hrest
      exact ⟨fun hnot => hsteps.1 fun ht => hnot (Or.inr ht),
        fun ht => hsteps.2 (ht.resolve_left htouches)⟩

def Thrown : Process → Prop
  | .creating _ (.thrown _) => True
  | .cancelling _ (.thrown _) => True
  | _ => False

/-- A call that runs alone on a book that agrees with the rows leaves rows, outbox and book as
they were if and only if it ends before it writes the book or commits. -/
theorem unchanged_iff (ha : Holds s.store.valkey (openBook s.store.db.findById))
    {actions : List Action} (h : ordersSystem.runAlone p s .idle actions = some (s', l')) :
    Unchanged s.store s'.store ↔ ¬Touched p s .idle actions := by
  have hclean : Clean s.store s .idle := ⟨⟨rfl, rfl, rfl, rfl⟩, trivial⟩
  have hsteps := clean_run ha hclean h
  exact ⟨fun hu ht => (hsteps.2 ht).not_unchanged hu, fun hnot => (hsteps.1 hnot).unchanged⟩

/-! ### A cancellation that fails -/

def restingOrder : Order :=
  ⟨"m", "seller", ⟨.eth, .usdt⟩, .sell, .limit, 10000000000, 100000000, 0, 100000000, .opened, "k"⟩

def restingStore : Shared :=
  ⟨⟨⟨[restingOrder], [], []⟩, Valkey.empty.rehydrate [entryOf restingOrder], [], 0⟩,
    LockTable.free⟩

theorem holds_restingStore :
    Holds restingStore.store.valkey (openBook restingStore.store.db.findById) := by
  have hbook : openBook restingStore.store.db.findById =
      lookup OrderbookEntry.orderId [entryOf restingOrder] := by
    funext orderId
    by_cases hid : restingOrder.id = orderId
    · subst hid
      decide +kernel
    · simp [openBook, OrdersDb.findById, restingStore, lookup, entryOf, hid]
  rw [hbook]
  exact holds_rehydrate _ (List.nodup_singleton _)

def cancellation : Action := .cancelOrder ⟨"m", "seller", "c"⟩

/-- A cancellation that cannot read the row changes nothing. -/
theorem unchanged_unread : ∃ s' l',
    ordersSystem.runAlone 0 restingStore .idle [cancellation, .abort] = some (s', l') ∧
      Thrown l' ∧ Unchanged restingStore.store s'.store := by
  have hrun : ordersSystem.runAlone 0 restingStore .idle [cancellation, .abort] = some _ := rfl
  refine ⟨_, _, hrun, trivial, (unchanged_iff holds_restingStore hrun).mpr ?_⟩
  rw [touched_cons rfl, touched_cons rfl]
  rintro (h | h | h)
  · exact h
  · exact h
  · exact not_touched_nil h

/-- The entry is removed, the transaction fails, and the order is still open. -/
theorem changed_unsequenced : ¬∀ p s s' l' actions,
    Holds s.store.valkey (openBook s.store.db.findById) →
      ordersSystem.runAlone p s .idle actions = some (s', l') → Thrown l' →
        Unchanged s.store s'.store := by
  intro h
  have hu := h 0 restingStore _ _ [cancellation, .statement, .statement, .statement, .abort]
    holds_restingStore rfl trivial
  have hdetails := congrFun hu.orderDetails "m"
  revert hdetails
  decide +kernel

end EtherTrade.OrderAtomicityLaws
