import EtherTrade.OrderRetryLaws

/-!
# What createOrder answers

The response of a call, and the response that a record keeps for later calls, name an
order of the user and the key of the call. A call that places an order answers with the
values it was asked for, and it is the only one of its key that does.
-/

namespace EtherTrade.OrderResponses

open DecimalNumbers KeyedRows AccountsSchema OrdersSchema MatchingEngine
open InterleavedProcesses ResourceLocks OrdersTransactions OrdersTransactionInvariants
open OrdersTransactionSteps OrderColumns OrderIdempotencyLaws OrderRetryLaws

variable {db db' : OrdersDb} {p q : ℕ} {s s' : Shared} {w : UnitOfWork} {l l' : Process}
  {action : Action} {c d : OrdersConfig} {e : Event Action} {key : Uuid × String}
  {orderId recordId : Uuid} {item : OrderItem} {order : Order} {request : CreateOrderRequest}
  {r : IdempotencyRecord} {point : Point} {placing : Placing}

/-! ### Orders and responses -/

/-- The columns of an order that no update changes. -/
def orderTerms (order : Order) : Order := UnitOfWork.executed order 0 0 .opened

theorem fixed_orderTerms : Fixed orderTerms := fun _ _ _ _ => rfl

/-- The values of a response that no update of its order changes. -/
def itemTerms (item : OrderItem) : OrderItem :=
  { item with filledAmount := 0, remainingAmount := 0, status := .opened }

theorem itemTerms_mapOrderToItem (order : Order) :
    itemTerms (mapOrderToItem order) = mapOrderToItem (orderTerms order) := rfl

def committedTerms (db : OrdersDb) (orderId : Uuid) : Option Order :=
  (db.findById orderId).map orderTerms

/-- The response names a committed order with the key, and has its values. -/
def Answers (db : OrdersDb) (key : Uuid × String) (item : OrderItem) : Prop :=
  ∃ terms, committedTerms db item.orderId = some terms ∧ orderKey terms = key ∧
    itemTerms item = mapOrderToItem terms

/-- The response has the values that were asked for. -/
structure Carries (request : CreateOrderRequest) (item : OrderItem) : Prop where
  pair : item.pair = request.pair
  side : item.side = request.side
  price : request.price.value.toColumn = some item.price
  amount : request.amount.value.toColumn = some item.amount

theorem carries_newOrder (h : newOrder request orderId = some order) :
    Carries request (mapOrderToItem order) := by
  simp only [newOrder, Option.bind_eq_bind, Option.bind_eq_some_iff, Option.pure_def,
    Option.some.injEq] at h
  obtain ⟨price, hprice, amount, hamount, rfl⟩ := h
  exact ⟨rfl, rfl, hprice, hamount⟩

theorem Carries.congr {item' : OrderItem} (h : Carries request item')
    (hterms : itemTerms item = itemTerms item') : Carries request item := by
  have hpair : (itemTerms item).pair = (itemTerms item').pair := congrArg OrderItem.pair hterms
  have hside : (itemTerms item).side = (itemTerms item').side := congrArg OrderItem.side hterms
  have hprice : (itemTerms item).price = (itemTerms item').price := congrArg OrderItem.price hterms
  have hamount : (itemTerms item).amount = (itemTerms item').amount :=
    congrArg OrderItem.amount hterms
  exact ⟨hpair.trans h.pair, hside.trans h.side, h.price.trans (congrArg some hprice.symm),
    h.amount.trans (congrArg some hamount.symm)⟩

/-- Committed orders keep the columns that no update changes. -/
def TermsKept (db db' : OrdersDb) : Prop :=
  ∀ k terms, committedTerms db k = some terms → committedTerms db' k = some terms

theorem Answers.kept (hkept : TermsKept db db') (h : Answers db key item) :
    Answers db' key item := by
  obtain ⟨terms, hterms, hrest⟩ := h
  exact ⟨terms, hkept _ _ hterms, hrest⟩

/-- A record of the key is completed. -/
def Completed (db : OrdersDb) (key : Uuid × String) : Prop :=
  ∃ r ∈ db.idempotencyRecords, r.scope = recordScope key ∧ r.status = .completed

/-- Records stay, and those that are completed stay as they are. -/
def RecordsKept (db db' : OrdersDb) : Prop :=
  ∀ r ∈ db.idempotencyRecords, ∃ r' ∈ db'.idempotencyRecords, r'.id = r.id ∧ r'.scope = r.scope ∧
    (r.status = .completed → r' = r)

theorem recordsKept_of_eq (h : db'.idempotencyRecords = db.idempotencyRecords) :
    RecordsKept db db' := by
  intro r hr
  exact ⟨r, by rwa [h], rfl, rfl, fun _ => rfl⟩

theorem Completed.kept (hkept : RecordsKept db db') (h : Completed db key) :
    Completed db' key := by
  obtain ⟨r, hr, hscope, hstatus⟩ := h
  obtain ⟨r', hr', -, hscope', hsame⟩ := hkept r hr
  rw [hsame hstatus] at hr' hscope'
  exact ⟨r, hr', hscope, hstatus⟩

/-! ### What a call knows of its order -/

/-- The order that a transaction places is the one it was asked for. -/
structure Places (request : CreateOrderRequest) (db : OrdersDb) (w : UnitOfWork) : Prop where
  placed : ∃ orderId, newOrder request orderId = some w.takerOrder
  updated : orderTerms w.updatedTaker = orderTerms w.takerOrder
  rows : RowsKeep orderTerms db w

def Responds (db : OrdersDb) : Process → Prop
  | .creating request (.placing _ (.active w _)) => Places request.val db w
  | .creating request (.placing _ (.committed order)) =>
    Answers db (requestKey request.val) (mapOrderToItem order) ∧
      Carries request.val (mapOrderToItem order)
  | .creating request (.returned item) =>
    Answers db (requestKey request.val) item ∧ Completed db (requestKey request.val)
  | _ => True

theorem places_start (h : newOrder request orderId = some order) :
    Places request db (.start order) :=
  ⟨⟨orderId, h⟩, rfl, rowsKeep_start order⟩

theorem Places.other {opposingOrders : List OrderBook.OrderbookEntry}
    {outboxList : List OutboxEvent} (h : Places request db w) :
    Places request db { w with opposingOrders, outboxList } := ⟨h.placed, h.updated, h.rows⟩

theorem Places.fill {maker : OrderBook.OrderbookEntry} {makerFilled : ℤ} {tradeId : Uuid}
    (h : Places request db w) (hfresh : db.findById w.takerOrder.id = none) :
    Places request db (w.fill db maker makerFilled tradeId) :=
  ⟨h.placed, h.updated, rowsKeep_write fixed_orderTerms h.rows rfl (UnitOfWork.fill_rows ..) hfresh⟩

theorem Places.finish (h : Places request db w) (hfresh : db.findById w.takerOrder.id = none)
    (hown : (lookup Order.id w.rows w.takerOrder.id).isSome) :
    Places request db (w.finish db) := by
  refine ⟨h.placed, ?_,
    rowsKeep_write fixed_orderTerms h.rows rfl (UnitOfWork.finish_rows ..) hfresh⟩
  obtain ⟨row, hrow⟩ := Option.isSome_iff_exists.mp hown
  have hterms := h.rows _ _ hrow
  rw [if_pos rfl] at hterms
  simp only [UnitOfWork.finish, UnitOfWork.updateExecution, UnitOfWork.findById, hrow,
    Option.some_or, Option.map_some, Option.getD_some]
  exact hterms

/-- What a transaction commits carries what it was asked for. -/
theorem responds_commit {valid : ValidRequest} {events : List OutboxEvent}
    (hi : CallHolds p s (.creating valid (.placing recordId (.active w point))))
    (h : Places valid.val s.store.db w) :
    Responds (commit p s w.rows events).store.db
      (.creating valid (.placing recordId (.committed w.updatedTaker))) := by
  obtain ⟨orderId, hplaced⟩ := h.placed
  have hterms : committedTerms (commit p s w.rows events).store.db w.updatedTaker.id =
      if w.updatedTaker.id = w.takerOrder.id then some (orderTerms w.takerOrder)
      else committedTerms s.store.db w.updatedTaker.id := findById_commit h.rows hi.1.own _
  have hid : (orderTerms w.updatedTaker).id = (orderTerms w.takerOrder).id := by rw [h.updated]
  refine ⟨⟨orderTerms w.takerOrder, hterms.trans (if_pos hid), hi.2.1, ?_⟩, ?_⟩
  · rw [itemTerms_mapOrderToItem, h.updated]
  · refine (carries_newOrder hplaced).congr ?_
    rw [itemTerms_mapOrderToItem, itemTerms_mapOrderToItem, h.updated]

/-! ### Who writes a response -/

/-- What a call that creates an order does to the records, and where its response is from. -/
inductive RecordWrite (p : ℕ) (s : Shared) (request : ValidRequest) (action : Action) :
    Creating → Shared → Creating → Prop
  | kept {progress progress' : Creating} {s' : Shared}
      (hrecords : s'.store.db.idempotencyRecords = s.store.db.idempotencyRecords)
      (hquiet : ∀ db, Responds db (.creating request progress')) :
      RecordWrite p s request action progress s' progress'
  | placed {recordId : Uuid} {placing placing' : Placing} {s' : Shared}
      (hrecords : s'.store.db.idempotencyRecords = s.store.db.idempotencyRecords)
      (hstep : placingStep p s request.val placing action = some (s', placing')) :
      RecordWrite p s request action (.placing recordId placing) s' (.placing recordId placing')
  | found {record : IdempotencyRecord} {item : OrderItem}
      (haction : action = .statement)
      (hfound : s.store.db.findRecord s.store.now request.val.userId createOrderOperation
        request.val.idempotencyKey = some record)
      (hstatus : record.status = .completed) (hpayload : record.responsePayload = some item) :
      RecordWrite p s request action .checking s (.returned item)
  | inserted {recordId : Uuid} :
      RecordWrite p s request action .recording
        (setDb s (s.store.db.insertRecord (newRecord request.val recordId s.store.now)))
        (.locking recordId)
  | failed {progress : Creating} {recordId : Uuid} {failure : Failure}
      (howner : recordOf (.creating request progress) = some recordId) :
      RecordWrite p s request action progress (setDb s (s.store.db.failRecord recordId))
        (.thrown failure)
  | completed {recordId : Uuid} {order : Order} :
      RecordWrite p s request action (.placing recordId (.committed order))
        (setDb s (s.store.db.completeRecord recordId (mapOrderToItem order)))
        (.returned (mapOrderToItem order))

private theorem resolveRecord_write {valid : ValidRequest}
    (hfound : s.store.db.findRecord s.store.now valid.val.userId createOrderOperation
      valid.val.idempotencyKey = some r) :
    RecordWrite p s valid .statement .checking s (resolveRecord valid.val r) := by
  unfold resolveRecord
  split
  · next hstatus hpayload => exact .found rfl hfound hstatus hpayload
  · exact .kept rfl fun _ => trivial
  · split
    · exact .kept rfl fun _ => trivial
    · exact .kept rfl fun _ => trivial

theorem creatingStep_write {valid : ValidRequest} {progress progress' : Creating}
    (h : creatingStep p s valid.val progress action = some (s', progress')) :
    RecordWrite p s valid action progress s' progress' := by
  cases progress with
  | placing recordId placing =>
    have hplacing (h : (placingStep p s valid.val placing action).map
        (fun r => (r.1, Creating.placing recordId r.2)) = some (s', progress')) :
        RecordWrite p s valid action (.placing recordId placing) s' progress' := by
      obtain ⟨⟨s₁, placing'⟩, hstep, heq⟩ := Option.map_eq_some_iff.mp h
      obtain ⟨rfl, rfl⟩ := Prod.mk.inj heq
      have heffect : RecordEffect s (.creating valid (.placing recordId placing)) s₁
          (.creating valid (.placing recordId placing')) := placingStep_effect hstep
      cases heffect with
      | kept hrecords => exact .placed hrecords hstep
      | settled _ _ hdone => cases hdone
    cases placing with
    | committed order =>
      cases action with
      | statement =>
        cases h
        exact .completed
      | abort =>
        cases h
        exact .kept rfl fun _ => trivial
      | _ => exact hplacing h
    | rolledBack =>
      cases action with
      | statement =>
        cases h
        exact .kept rfl fun _ => trivial
      | _ => exact hplacing h
    | _ => exact hplacing h
  | checking =>
    cases action with
    | statement =>
      simp only [creatingStep] at h
      split at h <;> cases h
      · exact .kept rfl fun _ => trivial
      · next hfound => exact resolveRecord_write hfound
    | abort =>
      cases h
      exact .kept rfl fun _ => trivial
    | _ => cases h
  | recording =>
    cases action with
    | insert recordId =>
      simp only [creatingStep] at h
      split at h <;> cases h
      · exact .kept rfl fun _ => trivial
      · exact .inserted
    | abort =>
      cases h
      exact .kept rfl fun _ => trivial
    | _ => cases h
  | lockRefused recordId message =>
    cases action with
    | statement =>
      cases h
      exact .failed rfl
    | abort =>
      cases h
      exact .kept rfl fun _ => trivial
    | _ => cases h
  | failing recordId =>
    cases action with
    | statement =>
      cases h
      exact .failed rfl
    | abort =>
      cases h
      exact .kept rfl fun _ => trivial
    | _ => cases h
  | awaitingLock recordId =>
    cases action with
    | reply reply => cases reply <;> cases h <;> exact .kept rfl fun _ => trivial
    | _ => cases h
  | _ => cases action <;> cases h <;> exact .kept rfl fun _ => trivial

/-! ### What a step keeps -/

theorem responds_placing {valid : ValidRequest} {placing' : Placing}
    (hi : CallHolds p s (.creating valid (.placing recordId placing)))
    (hr : Responds s.store.db (.creating valid (.placing recordId placing)))
    (h : placingStep p s valid.val placing action = some (s', placing')) :
    Responds s'.store.db (.creating valid (.placing recordId placing')) := by
  cases placing with
  | inserting =>
    cases action with
    | insert newId =>
      simp only [placingStep] at h
      split at h
      · cases h
        trivial
      · next order horder =>
        split at h
        · split at h <;> cases h
          · trivial
          · exact places_start horder
        · cases h
    | abort =>
      cases h
      trivial
    | _ => cases h
  | active w point =>
    have hactive : activeStep p s w point action = some (s', placing') := h
    cases activeStep_cases hactive with
    | quiet hdb =>
      rw [Responds, hdb]
      exact hr.other
    | matched =>
      obtain ⟨next, hplacing, -⟩ := activeStep_updating hactive
      exact hr.fill hi.1.fresh
    | unmatched =>
      obtain ⟨next, rfl, -⟩ := activeStep_updating hactive
      exact hr.fill hi.1.fresh
    | finished => exact hr.finish hi.1.fresh hi.1.own
    | committed =>
      rcases activeStep_committing hactive with rfl | rfl
      · exact responds_commit hi hr
      · trivial
    | aborted => trivial
  | _ => cases action <;> cases h

theorem responds_keeps (hkeeps : Keeps view q s s') (hterms : TermsKept s.store.db s'.store.db)
    (hrecords : RecordsKept s.store.db s'.store.db) (hi : CallHolds q s l)
    (hr : Responds s.store.db l) : Responds s'.store.db l := by
  unfold Responds at hr ⊢
  split
  · refine ⟨hr.placed, hr.updated, fun orderId row hrow => ?_⟩
    have hview : s'.store.db.findById orderId = s.store.db.findById orderId :=
      hkeeps.view_eq (hi.1.locked orderId (Option.isSome_iff_exists.mpr ⟨row, hrow⟩))
    rw [hview]
    exact hr.rows orderId row hrow
  · exact ⟨hr.1.kept hterms, hr.2⟩
  · exact ⟨hr.1.kept hterms, hr.2.kept hrecords⟩
  · trivial

/-- No step changes the terms of a committed order. -/
theorem termsKept_step (hi : CallHolds p s l) (hr : Responds s.store.db l)
    (h : ProcessStep p s l action s' l') : TermsKept s.store.db s'.store.db := by
  have hplacing : ∀ request recordId w point,
      l = .creating request (.placing recordId (.active w point)) →
        RowsKeep orderTerms s.store.db w ∧ (lookup Order.id w.rows w.takerOrder.id).isSome := by
    rintro request recordId w point rfl
    exact ⟨hr.rows, hi.1.own⟩
  intro k terms hk
  rcases findById_step fixed_orderTerms hplacing hi.columns.2 h with hsame | ⟨request, recordId,
    w, rfl, hcommit⟩
  · exact (hsame k).trans hk
  · have hne : k ≠ w.takerOrder.id := by
      rintro rfl
      rw [committedTerms, hi.1.fresh] at hk
      cases hk
    exact (hcommit k).trans ((if_neg hne).trans hk)

/-- A call that settles its own record keeps those that are completed. -/
theorem recordsKept_settle {owner : ℕ → Option Uuid}
    (howned : Owned owner s.store.db.idempotencyRecords) (howner : owner p = some recordId)
    {f : IdempotencyRecord → IdempotencyRecord} (hf : Settles f) :
    RecordsKept s.store.db (s.store.db.setRecord recordId f) := by
  intro r hr
  refine ⟨if r.id = recordId then f r else r, List.mem_map_of_mem hr, ?_, ?_, fun hstatus => ?_⟩
  · split
    · exact hf.id r
    · rfl
  · split
    · exact hf.scope r
    · rfl
  · refine if_neg fun hid => ?_
    obtain ⟨own, hown, hownId, hprogress⟩ := howned.inProgress p recordId howner
    rw [howned.ids.eq hr hown (hid.trans hownId.symm), hprogress] at hstatus
    cases hstatus

theorem recordsKept_insert (record : IdempotencyRecord) :
    RecordsKept db (db.insertRecord record) := by
  intro r hr
  exact ⟨r, List.mem_append_left _ hr, rfl, rfl, fun _ => rfl⟩

theorem recordsKept_write {owner : ℕ → Option Uuid} {valid : ValidRequest}
    {progress progress' : Creating} (howned : Owned owner s.store.db.idempotencyRecords)
    (howner : owner p = recordOf (.creating valid progress))
    (h : RecordWrite p s valid action progress s' progress') :
    RecordsKept s.store.db s'.store.db := by
  cases h with
  | kept hrecords => exact recordsKept_of_eq hrecords
  | placed hrecords => exact recordsKept_of_eq hrecords
  | found => exact recordsKept_of_eq rfl
  | inserted => exact recordsKept_insert _
  | failed hrecord => exact recordsKept_settle howned (howner.trans hrecord) settles_fail
  | completed => exact recordsKept_settle howned howner (settles_complete _)

/-! ### Runs -/

/-- What is answered, and what is kept to be answered, is of the key it is found by. -/
structure Responding (c : OrdersConfig) : Prop where
  keys : KeysOnce c
  owned : OwnedRecords c
  calls : ∀ p, Responds c.shared.store.db (c.procs p)
  records : ∀ r ∈ c.shared.store.db.idempotencyRecords, ∀ item, r.responsePayload = some item →
    Answers c.shared.store.db (r.userId, r.key) item
  scopes : ∀ p request progress recordId, c.procs p = .creating request progress →
    recordOf (.creating request progress) = some recordId →
      ∃ r ∈ c.shared.store.db.idempotencyRecords,
        r.id = recordId ∧ r.scope = recordScope (requestKey request.val)

theorem key_of_scope (h : r.scope = recordScope key) : (r.userId, r.key) = key := by
  have huser : r.userId = key.1 := congrArg Prod.fst h
  have hkey : r.key = key.2 := congrArg (fun scope => scope.2.2) h
  rw [huser, hkey]

/-- A step of a call writes as a creation does, or leaves the records and answers nothing. -/
theorem step_write (h : step p s l action = some (s', l')) :
    (∃ valid progress progress', l = .creating valid progress ∧ l' = .creating valid progress' ∧
      RecordWrite p s valid action progress s' progress') ∨
    (s'.store.db.idempotencyRecords = s.store.db.idempotencyRecords ∧
      (∀ db, Responds db l') ∧ recordOf l' = none) := by
  cases l with
  | idle =>
    cases action with
    | createOrder request =>
      simp only [step] at h
      split at h <;> cases h <;> exact Or.inr ⟨rfl, fun _ => trivial, rfl⟩
    | cancelOrder request =>
      cases h
      exact Or.inr ⟨rfl, fun _ => trivial, rfl⟩
    | passTime ms =>
      cases h
      exact Or.inr ⟨rfl, fun _ => trivial, rfl⟩
    | _ => cases h
  | refused exception => cases h
  | creating valid progress =>
    simp only [step, Option.map_eq_some_iff, Prod.mk.injEq] at h
    obtain ⟨⟨s₁, progress'⟩, hstep, rfl, rfl⟩ := h
    exact Or.inl ⟨valid, progress, progress', rfl, rfl, creatingStep_write hstep⟩
  | cancelling request progress =>
    simp only [step, Option.map_eq_some_iff, Prod.mk.injEq] at h
    obtain ⟨⟨s₁, progress'⟩, hstep, rfl, rfl⟩ := h
    exact Or.inr ⟨(cancellingStep_records hstep).1, fun _ => trivial, rfl⟩

theorem recordsKept_step (hc : Responding c)
    (h : step p c.shared (c.procs p) action = some (s', l')) :
    RecordsKept c.shared.store.db s'.store.db := by
  rcases step_write h with ⟨valid, progress, progress', hl, -, hwrite⟩ | ⟨hrecords, -⟩
  · exact recordsKept_write hc.owned (congrArg recordOf hl) hwrite
  · exact recordsKept_of_eq hrecords

/-- The record of a call has the key of the call. -/
theorem Responding.recordKey (hc : Responding c) {valid : ValidRequest} {progress : Creating}
    (hl : c.procs p = .creating valid progress)
    (howner : recordOf (.creating valid progress) = some recordId)
    (hr : r ∈ c.shared.store.db.idempotencyRecords) (hid : r.id = recordId) :
    (r.userId, r.key) = requestKey valid.val := by
  obtain ⟨own, hown, hownId, hscope⟩ := hc.scopes p valid progress recordId hl howner
  rw [hc.owned.ids.eq hr hown (hid.trans hownId.symm)]
  exact key_of_scope hscope

theorem responds_own (hc : Responding c)
    (h : step p c.shared (c.procs p) action = some (s', l')) : Responds s'.store.db l' := by
  rcases step_write h with ⟨valid, progress, progress', hl, rfl, hwrite⟩ | ⟨-, hquiet, -⟩
  · have hi : CallHolds p c.shared (.creating valid progress) := hl ▸ hc.keys.calls p
    have hr : Responds c.shared.store.db (.creating valid progress) := hl ▸ hc.calls p
    cases hwrite with
    | kept hrecords hquiet => exact hquiet _
    | placed hrecords hstep => exact responds_placing hi hr hstep
    | @found record item _ hfound hstatus hpayload =>
      obtain ⟨hlookup, -⟩ := Option.filter_eq_some_iff.mp hfound
      obtain ⟨hmem, hscope⟩ := lookup_mem hlookup
      have hscope' : record.scope = recordScope (requestKey valid.val) := hscope
      have hanswers := hc.records record hmem item hpayload
      rw [key_of_scope hscope'] at hanswers
      exact ⟨hanswers, record, hmem, hscope', hstatus⟩
    | inserted => trivial
    | failed howner => trivial
    | @completed recordId order =>
      obtain ⟨own, hown, hid, hscope⟩ := hc.scopes p valid _ recordId hl rfl
      refine ⟨hr.1, _, List.mem_map_of_mem hown, ?_⟩
      rw [if_pos hid]
      exact ⟨hscope, rfl⟩
  · exact hquiet _

theorem records_own (hc : Responding c)
    (h : step p c.shared (c.procs p) action = some (s', l'))
    (hterms : TermsKept c.shared.store.db s'.store.db) (hr : r ∈ s'.store.db.idempotencyRecords)
    (hpayload : r.responsePayload = some item) : Answers s'.store.db (r.userId, r.key) item := by
  have hsame (hrecords : s'.store.db.idempotencyRecords =
      c.shared.store.db.idempotencyRecords) : Answers s'.store.db (r.userId, r.key) item := by
    rw [hrecords] at hr
    exact (hc.records r hr item hpayload).kept hterms
  rcases step_write h with ⟨valid, progress, progress', hl, rfl, hwrite⟩ | ⟨hrecords, -⟩
  · cases hwrite with
    | kept hrecords => exact hsame hrecords
    | placed hrecords => exact hsame hrecords
    | found => exact hsame rfl
    | inserted =>
      rcases List.mem_append.mp hr with hold | hnew
      · exact hc.records r hold item hpayload
      · rw [List.mem_singleton.mp hnew] at hpayload
        cases hpayload
    | @failed _ recordId =>
      obtain ⟨old, hold, rfl⟩ := List.mem_map.mp hr
      by_cases hid : old.id = recordId
      · rw [if_pos hid] at hpayload ⊢
        exact hc.records old hold item hpayload
      · rw [if_neg hid] at hpayload ⊢
        exact hc.records old hold item hpayload
    | @completed recordId order =>
      have hresponds : Responds c.shared.store.db
          (.creating valid (.placing recordId (.committed order))) := hl ▸ hc.calls p
      obtain ⟨old, hold, rfl⟩ := List.mem_map.mp hr
      by_cases hid : old.id = recordId
      · rw [if_pos hid] at hpayload ⊢
        obtain rfl := Option.some.inj hpayload
        have hanswers := hresponds.1
        rwa [← hc.recordKey hl rfl hold hid] at hanswers
      · rw [if_neg hid] at hpayload ⊢
        exact hc.records old hold item hpayload
  · exact hsame hrecords

theorem scopes_own (hc : Responding c)
    (h : step p c.shared (c.procs p) action = some (s', l')) {valid : ValidRequest}
    {progress : Creating} (hl' : l' = .creating valid progress)
    (howner : recordOf (.creating valid progress) = some recordId) :
    ∃ r ∈ s'.store.db.idempotencyRecords,
      r.id = recordId ∧ r.scope = recordScope (requestKey valid.val) := by
  have heffect := step_effect h
  rcases step_write h with ⟨valid', progress₀, progress', hl, hl'', -⟩ | ⟨-, -, hnone⟩
  · obtain ⟨rfl, rfl⟩ := Process.creating.inj (hl'.symm.trans hl'')
    have hold (hsame : recordOf l' = recordOf (c.procs p)) :
        ∃ r ∈ c.shared.store.db.idempotencyRecords,
          r.id = recordId ∧ r.scope = recordScope (requestKey valid.val) := by
      refine hc.scopes p valid progress₀ recordId hl ?_
      rw [← hl, ← hsame, hl', howner]
    generalize c.procs p = l at heffect hl hold
    cases heffect with
    | kept hrecords _ hrecord =>
      rcases hrecord with hnone | hsame
      · rw [hl', howner] at hnone
        cases hnone
      · rw [hrecords]
        exact hold hsame
    | @inserted request newId =>
      obtain ⟨rfl, rfl⟩ := Process.creating.inj hl'
      obtain rfl := Option.some.inj howner
      exact ⟨_, List.mem_append_right _ List.mem_cons_self, rfl, rfl⟩
    | settled _ _ hdone =>
      rw [hl', howner] at hdone
      cases hdone
  · rw [hl', howner] at hnone
    cases hnone

theorem termsKept_next (hc : Responding c) (h : ordersSystem.next c e = some d) :
    TermsKept c.shared.store.db d.shared.store.db := by
  obtain ⟨s', l', hs, rfl⟩ := System.next_eq_some.mp h
  exact termsKept_step (hc.keys.calls e.proc) (hc.calls e.proc) (step_cases hs)

theorem responding_next (hc : Responding c) (h : ordersSystem.next c e = some d) :
    Responding d := by
  have hkeys := keysOnce_next hc.keys h
  have howned := ownedRecords_next hc.owned h
  have hterms := termsKept_next hc h
  obtain ⟨s', l', hs, rfl⟩ := System.next_eq_some.mp h
  have hstep : ProcessStep e.proc c.shared (c.procs e.proc) e.action s' l' := step_cases hs
  have hrecords : RecordsKept c.shared.store.db s'.store.db := recordsKept_step hc hs
  refine ⟨hkeys, howned, fun q => ?_,
    fun r hr item hpayload => records_own hc hs hterms hr hpayload, fun q valid progress recordId hq howner => ?_⟩
  · by_cases hq : q = e.proc
    · subst hq
      simpa using responds_own hc hs
    · have hkeeps : Keeps view q c.shared s' :=
        processStep_keeps (commitsLocked_of_callHolds (hc.keys.calls e.proc)) hstep (Ne.symm hq)
      simpa [Function.update_of_ne hq] using
        responds_keeps hkeeps hterms hrecords (hc.keys.calls q) (hc.calls q)
  · by_cases hqe : q = e.proc
    · subst hqe
      refine scopes_own hc hs ?_ howner
      simpa using hq
    · have hq' : c.procs q = .creating valid progress := by
        simpa [Function.update_of_ne hqe] using hq
      obtain ⟨r, hr, hid, hscope⟩ := hc.scopes q valid progress recordId hq' howner
      obtain ⟨r', hr', hid', hscope', -⟩ := hrecords r hr
      exact ⟨r', hr', hid'.trans hid, hscope'.trans hscope⟩

theorem responding_initial : Responding initial where
  keys := keysOnce_initial
  owned := ownedRecords_initial
  calls _ := trivial
  records _ hr := absurd hr List.not_mem_nil
  scopes _ _ _ _ hl := by cases hl

/-- A call that has returned has completed the record of its key. -/
theorem not_responds_empty {valid : ValidRequest} :
    ¬Responds .empty (.creating valid (.returned item)) := by
  rintro ⟨-, r, hr, -⟩
  exact List.not_mem_nil hr

/-- A call returns what a record kept, or what it placed. In the latter case it was asked for
that, and no other call of its key has returned. -/
theorem returned_next (hc : Responding c) (h : ordersSystem.next c e = some d)
    {valid : ValidRequest} (hreturned : d.procs e.proc = .creating valid (.returned item)) :
    (e.action = .statement ∧ c.procs e.proc = .creating valid .checking ∧
      ∃ record, c.shared.store.db.findRecord c.shared.store.now valid.val.userId
        createOrderOperation valid.val.idempotencyKey = some record ∧
          record.status = .completed ∧ record.responsePayload = some item) ∨
    (Carries valid.val item ∧ ∀ q other response, c.procs q = .creating other (.returned response) →
      requestKey other.val ≠ requestKey valid.val) := by
  obtain ⟨s', l', hs, rfl⟩ := System.next_eq_some.mp h
  have hlast : l' = .creating valid (.returned item) := by simpa using hreturned
  rcases step_write hs with ⟨valid', progress, progress', hl, hl', hwrite⟩ | ⟨-, hquiet, -⟩
  · obtain ⟨rfl, rfl⟩ := Process.creating.inj (hlast.symm.trans hl')
    cases hwrite with
    | kept hrecords hquiet => exact absurd (hquiet .empty) not_responds_empty
    | found haction hfound hstatus hpayload =>
      exact Or.inl ⟨haction, hl, _, hfound, hstatus, hpayload⟩
    | @completed recordId order =>
      have hresponds : Responds c.shared.store.db
          (.creating valid (.placing recordId (.committed order))) := hl ▸ hc.calls e.proc
      refine Or.inr ⟨hresponds.2, fun q other response hq hkey => ?_⟩
      have hother : Responds c.shared.store.db (.creating other (.returned response)) :=
        hq ▸ hc.calls q
      obtain ⟨r, hr, hscope, hstatus⟩ := hother.2
      obtain ⟨own, hown, hid, hownScope⟩ := hc.scopes e.proc valid _ recordId hl rfl
      obtain ⟨r', hr', hid', hprogress⟩ :=
        hc.owned.inProgress e.proc recordId (congrArg recordOf hl)
      rw [hkey, ← hownScope] at hscope
      rw [hc.owned.scopes.eq hr hown hscope, hc.owned.ids.eq hown hr' (hid.trans hid'.symm),
        hprogress] at hstatus
      cases hstatus
  · rw [hlast] at hquiet
    exact absurd (hquiet .empty) not_responds_empty

end EtherTrade.OrderResponses
