import EtherTrade.OpenOrders
import EtherTrade.OrdersTransactionSteps

/-!
# What a call may still write

Which orders a call may yet list in a sorted set, remove from one, or describe in a hash,
and whether it may yet write rows. A step writes nothing else, and never learns of an
order that was not among them.
-/

namespace EtherTrade.OrdersBookWrites

open KeyedRows AccountsSchema OrdersSchema OrderBook MatchingEngine SortedSets
open InterleavedProcesses ResourceLocks OrdersTransactions OrdersTransactionInvariants
open OrdersTransactionSteps RestingOrders MatchingLoop OpenOrders
open TradeSettlement (TradingSymbol)

variable {p : ℕ} {s s' : Shared} {l l' : Process} {action : Action} {w : UnitOfWork}
  {point : Point} {placing : Placing} {orderId : Uuid}

/-- The entries a transaction may yet visit, and its own order. -/
def mayVisit (w : UnitOfWork) (orderId : Uuid) : Prop :=
  orderId ∈ w.opposingOrders.map OrderbookEntry.orderId ∨ orderId = w.takerOrder.id

/-- The orders that a transaction may yet add to a sorted set or remove from one. -/
def placingLists (w : UnitOfWork) (orderId : Uuid) : Point → Prop
  | .visiting => mayVisit w orderId
  | .finding maker => orderId = maker.orderId ∨ mayVisit w orderId
  | .updating maker _ => orderId = maker.orderId ∨ mayVisit w orderId
  | .removing maker => orderId = maker.orderId ∨ mayVisit w orderId
  | .deleting _ => mayVisit w orderId
  | .caching _ _ => mayVisit w orderId
  | .updatingTaker => orderId = w.takerOrder.id
  | .adding => orderId = w.takerOrder.id
  | .detailing => False
  | .numbering _ => False
  | .committing => False
  | _ => True

/-- The orders whose hashes a transaction may yet write. -/
def placingDetails (w : UnitOfWork) (orderId : Uuid) : Point → Prop
  | .visiting => mayVisit w orderId
  | .finding maker => orderId = maker.orderId ∨ mayVisit w orderId
  | .updating maker _ => orderId = maker.orderId ∨ mayVisit w orderId
  | .removing maker => orderId = maker.orderId ∨ mayVisit w orderId
  | .deleting maker => orderId = maker.orderId ∨ mayVisit w orderId
  | .caching maker _ => orderId = maker.orderId ∨ mayVisit w orderId
  | .updatingTaker => orderId = w.takerOrder.id
  | .adding => orderId = w.takerOrder.id
  | .detailing => orderId = w.takerOrder.id
  | .numbering _ => False
  | .committing => False
  | _ => True

/-- A call that has not ended its transaction. -/
def Running : Process → Prop
  | .idle => True
  | .creating _ .checking => True
  | .creating _ .recording => True
  | .creating _ (.locking _) => True
  | .creating _ (.awaitingLock _) => True
  | .creating _ (.placing _ .inserting) => True
  | .creating _ (.placing _ (.active _ _)) => True
  | .cancelling _ .finding => True
  | .cancelling _ (.removing _) => True
  | .cancelling _ (.deleting _) => True
  | .cancelling _ (.sequencing _) => True
  | .cancelling _ (.totalling _ _) => True
  | .cancelling _ (.updating _ _) => True
  | .cancelling _ (.recording _ _ _) => True
  | .cancelling _ (.committing _ _) => True
  | _ => False

def Lists (l : Process) (orderId : Uuid) : Prop :=
  match l with
  | .creating _ (.placing _ (.active w point)) => placingLists w orderId point
  | .cancelling request .finding => orderId = request.orderId
  | .cancelling request (.removing _) => orderId = request.orderId
  | .cancelling _ _ => False
  | l => Running l

def Details (l : Process) (orderId : Uuid) : Prop :=
  match l with
  | .creating _ (.placing _ (.active w point)) => placingDetails w orderId point
  | .cancelling request .finding => orderId = request.orderId
  | .cancelling request (.removing _) => orderId = request.orderId
  | .cancelling request (.deleting _) => orderId = request.orderId
  | .cancelling _ _ => False
  | l => Running l

/-- A step writes only what its process was known to write, and learns of nothing more. -/
structure Frames (s : Shared) (l : Process) (s' : Shared) (l' : Process) : Prop where
  running : Running l' → Running l
  orders : ¬Running l → s'.store.db.orders = s.store.db.orders
  lists : ∀ orderId, Lists l' orderId → Lists l orderId
  details : ∀ orderId, Details l' orderId → Details l orderId
  scores : ∀ pair side orderId, ¬Lists l orderId →
    (s'.store.valkey.orderbooks pair side).score orderId =
      (s.store.valkey.orderbooks pair side).score orderId
  orderDetails : ∀ orderId, ¬Details l orderId →
    s'.store.valkey.orderDetails orderId = s.store.valkey.orderDetails orderId

/-- A step that writes neither rows nor the book. -/
theorem Frames.of_eq (horders : s'.store.db.orders = s.store.db.orders)
    (hbooks : s'.store.valkey.orderbooks = s.store.valkey.orderbooks)
    (hdetails : s'.store.valkey.orderDetails = s.store.valkey.orderDetails)
    (hrunning : Running l' → Running l) (hl : ∀ orderId, Lists l' orderId → Lists l orderId)
    (hd : ∀ orderId, Details l' orderId → Details l orderId) : Frames s l s' l' :=
  ⟨hrunning, fun _ => horders, hl, hd, fun _ _ _ _ => by rw [hbooks], fun _ _ => by rw [hdetails]⟩

theorem score_setOrderbook {v : Valkey} {pair pair' : TradingSymbol} {side side' : OrderSide}
    {z : SortedSet Uuid ℚ} (h : z.score orderId = (v.orderbooks pair side).score orderId) :
    ((v.setOrderbook pair side z).orderbooks pair' side').score orderId =
      (v.orderbooks pair' side').score orderId := by
  rw [orderbooks_setOrderbook]
  split
  · next heq =>
    rw [heq.1, heq.2]
    exact h
  · rfl

/-- The loop takes the next maker and keeps what stands behind it. -/
theorem nextMaker_sublist {takerOrder : Order} {takerRemaining : ℤ} {maker : OrderbookEntry}
    {entries rest : List OrderbookEntry}
    (h : nextMaker takerOrder takerRemaining entries = some (maker, rest)) :
    (maker :: rest).Sublist entries ∧ takerRemaining ≠ 0 := by
  induction entries with
  | nil => cases h
  | cons entry entries ih =>
    rw [nextMaker] at h
    split at h
    · cases h
    · next hopen =>
      split at h
      · exact ⟨(ih h).1.cons _, hopen⟩
      · split at h
        · obtain ⟨rfl, rfl⟩ := Prod.mk.inj (Option.some.inj h)
          exact ⟨.refl _, hopen⟩
        · cases h

theorem mayVisit_of_sublist {maker : OrderbookEntry} {rest : List OrderbookEntry}
    (h : (maker :: rest).Sublist w.opposingOrders)
    (hid : orderId = maker.orderId ∨ mayVisit { w with opposingOrders := rest } orderId) :
    mayVisit w orderId := by
  have hids := (h.map OrderbookEntry.orderId).subset
  rcases hid with rfl | hid | hid
  · exact Or.inl (hids List.mem_cons_self)
  · exact Or.inl (hids (List.mem_cons_of_mem _ hid))
  · exact Or.inr hid

/-- A step of a unit of work that writes neither rows nor the book. -/
private theorem frames_active_of_eq {request : ValidRequest} {recordId : Uuid}
    (horders : s'.store.db.orders = s.store.db.orders)
    (hbooks : s'.store.valkey.orderbooks = s.store.valkey.orderbooks)
    (hdetails : s'.store.valkey.orderDetails = s.store.valkey.orderDetails)
    (hplacing : ∀ w' point', placing = .active w' point' → ∀ orderId,
      (placingLists w' orderId point' → placingLists w orderId point) ∧
        (placingDetails w' orderId point' → placingDetails w orderId point))
    (hends : placing ≠ .inserting) :
    Frames s (.creating request (.placing recordId (.active w point))) s'
      (.creating request (.placing recordId placing)) := by
  refine .of_eq horders hbooks hdetails (fun _ => trivial) (fun orderId hl => ?_)
    fun orderId hd => ?_
  · cases placing with
    | active w' point' => exact (hplacing w' point' rfl orderId).1 hl
    | inserting => exact absurd rfl hends
    | _ => exact hl.elim
  · cases placing with
    | active w' point' => exact (hplacing w' point' rfl orderId).2 hd
    | inserting => exact absurd rfl hends
    | _ => exact hd.elim

private theorem frames_statement {request : ValidRequest} {recordId : Uuid}
    (h : activeStep p s w point .statement = some (s', placing)) :
    Frames s (.creating request (.placing recordId (.active w point))) s'
      (.creating request (.placing recordId placing)) := by
  cases point with
  | sequencing =>
    obtain ⟨rfl, rfl⟩ := Prod.mk.inj (Option.some.inj h)
    exact frames_active_of_eq rfl rfl rfl (fun _ _ _ _ => ⟨fun _ => trivial, fun _ => trivial⟩)
      (by simp)
  | totalling sequenceId =>
    obtain ⟨rfl, rfl⟩ := Prod.mk.inj (Option.some.inj h)
    exact frames_active_of_eq rfl rfl rfl (fun _ _ _ _ => ⟨fun _ => trivial, fun _ => trivial⟩)
      (by simp)
  | ranging =>
    obtain ⟨rfl, rfl⟩ := Prod.mk.inj (Option.some.inj h)
    exact frames_active_of_eq rfl rfl rfl (fun _ _ _ _ => ⟨fun _ => trivial, fun _ => trivial⟩)
      (by simp)
  | reading ids =>
    cases ids <;> obtain ⟨rfl, rfl⟩ := Prod.mk.inj (Option.some.inj h) <;>
      exact frames_active_of_eq rfl rfl rfl (fun _ _ _ _ => ⟨fun _ => trivial, fun _ => trivial⟩)
        (by simp)
  | visiting =>
    simp only [activeStep] at h
    split at h
    · obtain ⟨rfl, rfl⟩ := Prod.mk.inj (Option.some.inj h)
      refine frames_active_of_eq rfl rfl rfl (fun w' point' heq orderId => ?_) (by simp)
      cases heq
      exact ⟨Or.inr, Or.inr⟩
    · next maker rest hnext =>
      obtain ⟨rfl, rfl⟩ := Prod.mk.inj (Option.some.inj h)
      refine frames_active_of_eq rfl rfl rfl (fun w' point' heq orderId => ?_) (by simp)
      cases heq
      have hrest := (nextMaker_sublist hnext).1
      exact ⟨mayVisit_of_sublist hrest, mayVisit_of_sublist hrest⟩
  | finding maker =>
    obtain ⟨rfl, rfl⟩ := Prod.mk.inj (Option.some.inj h)
    refine frames_active_of_eq rfl rfl rfl (fun w' point' heq orderId => ?_) (by simp)
    cases heq
    exact ⟨id, id⟩
  | removing maker =>
    obtain ⟨rfl, rfl⟩ := Prod.mk.inj (Option.some.inj h)
    refine ⟨fun _ => trivial, fun _ => rfl, fun _ => Or.inr, fun _ => id,
      fun pair side orderId hl => ?_, fun _ _ => rfl⟩
    exact score_setOrderbook ((SortedSet.score_zrem _).trans (if_neg fun heq => hl (Or.inl heq)))
  | deleting maker =>
    obtain ⟨rfl, rfl⟩ := Prod.mk.inj (Option.some.inj h)
    exact ⟨fun _ => trivial, fun _ => rfl, fun _ => id, fun _ => Or.inr, fun _ _ _ _ => rfl,
      fun orderId hd => Function.update_of_ne (fun heq => hd (Or.inl heq)) _ _⟩
  | caching maker remainingAmount =>
    obtain ⟨rfl, rfl⟩ := Prod.mk.inj (Option.some.inj h)
    exact ⟨fun _ => trivial, fun _ => rfl, fun _ => id, fun _ => Or.inr, fun _ _ _ _ => rfl,
      fun orderId hd => Function.update_of_ne (fun heq => hd (Or.inl heq)) _ _⟩
  | updatingTaker =>
    obtain ⟨rfl, rfl⟩ := Prod.mk.inj (Option.some.inj h)
    refine frames_active_of_eq rfl rfl rfl (fun w' point' heq orderId => ?_) (by simp)
    cases heq
    split
    · exact ⟨False.elim, False.elim⟩
    · exact ⟨id, id⟩
  | adding =>
    obtain ⟨rfl, rfl⟩ := Prod.mk.inj (Option.some.inj h)
    refine ⟨fun _ => trivial, fun _ => rfl, fun _ => False.elim, fun _ => id,
      fun pair side orderId hl => ?_, fun _ _ => rfl⟩
    exact score_setOrderbook ((SortedSet.score_zadd _).trans (if_neg hl))
  | detailing =>
    obtain ⟨rfl, rfl⟩ := Prod.mk.inj (Option.some.inj h)
    exact ⟨fun _ => trivial, fun _ => rfl, fun _ => id, fun _ => False.elim, fun _ _ _ _ => rfl,
      fun orderId hd => Function.update_of_ne hd _ _⟩
  | numbering rest =>
    cases rest <;> obtain ⟨rfl, rfl⟩ := Prod.mk.inj (Option.some.inj h) <;>
      refine frames_active_of_eq rfl rfl rfl (fun w' point' heq orderId => ?_) (by simp) <;>
      cases heq <;> exact ⟨id, id⟩
  | committing =>
    obtain ⟨rfl, rfl⟩ := Prod.mk.inj (Option.some.inj h)
    exact ⟨fun _ => trivial, fun h => absurd trivial h, fun _ => False.elim, fun _ => False.elim,
      fun _ _ _ _ => rfl, fun _ _ => rfl⟩
  | updating maker makerFilled => cases h

theorem frames_active {request : ValidRequest} {recordId : Uuid}
    (h : activeStep p s w point action = some (s', placing)) :
    Frames s (.creating request (.placing recordId (.active w point))) s'
      (.creating request (.placing recordId placing)) := by
  cases action with
  | statement => exact frames_statement h
  | abort =>
    obtain ⟨rfl, rfl⟩ := activeStep_abort h
    exact frames_active_of_eq rfl rfl rfl (fun _ _ h => by cases h) (by simp)
  | trade tradeId =>
    cases point with
    | updating maker makerFilled =>
      simp only [activeStep] at h
      have hplacing (orderId : Uuid) (point' : Point)
          (hpoint : point' = if w.makerStatus maker = .filled then .removing maker
            else .caching maker (w.newMakerRemaining maker)) :
          (placingLists (w.fill s.store.db maker makerFilled tradeId) orderId point' →
              placingLists w orderId (.updating maker makerFilled)) ∧
            (placingDetails (w.fill s.store.db maker makerFilled tradeId) orderId point' →
              placingDetails w orderId (.updating maker makerFilled)) := by
        subst hpoint
        split
        · exact ⟨id, id⟩
        · exact ⟨Or.inr, id⟩
      split at h
      · obtain ⟨rfl, rfl⟩ := Prod.mk.inj (Option.some.inj h)
        refine frames_active_of_eq rfl rfl rfl (fun w' point' heq orderId => ?_) (by simp)
        cases heq
        exact hplacing orderId _ rfl
      · split at h
        · obtain ⟨rfl, rfl⟩ := Prod.mk.inj (Option.some.inj h)
          refine frames_active_of_eq rfl rfl rfl (fun w' point' heq orderId => ?_) (by simp)
          cases heq
          exact hplacing orderId _ rfl
        · cases h
    | reading ids => cases ids <;> cases h
    | numbering rest => cases rest <;> cases h
    | _ => cases h
  | commitUnacknowledged =>
    cases point with
    | committing =>
      obtain ⟨rfl, rfl⟩ := Prod.mk.inj (Option.some.inj h)
      exact ⟨fun _ => trivial, fun h => absurd trivial h, fun _ => False.elim, fun _ => False.elim,
        fun _ _ _ _ => rfl, fun _ _ => rfl⟩
    | reading ids => cases ids <;> cases h
    | numbering rest => cases rest <;> cases h
    | _ => cases h
  | _ =>
    cases point with
    | reading ids => cases ids <;> cases h
    | numbering rest => cases rest <;> cases h
    | _ => cases h

/-- A call that is not yet in its transaction may still write anything. -/
private theorem frames_early (horders : s'.store.db.orders = s.store.db.orders)
    (hvalkey : s'.store.valkey = s.store.valkey) (hrunning : Running l)
    (hl : ∀ orderId, Lists l orderId) (hd : ∀ orderId, Details l orderId) : Frames s l s' l' :=
  .of_eq horders (congrArg Valkey.orderbooks hvalkey) (congrArg Valkey.orderDetails hvalkey)
    (fun _ => hrunning) (fun orderId _ => hl orderId) fun orderId _ => hd orderId

/-- A call that is over, or waits for its compensation, writes nothing more. -/
private theorem frames_late (horders : s'.store.db.orders = s.store.db.orders)
    (hvalkey : s'.store.valkey = s.store.valkey) (hrunning : ¬Running l')
    (hl : ∀ orderId, ¬Lists l' orderId) (hd : ∀ orderId, ¬Details l' orderId) : Frames s l s' l' :=
  .of_eq horders (congrArg Valkey.orderbooks hvalkey) (congrArg Valkey.orderDetails hvalkey)
    (fun h => absurd h hrunning) (fun orderId h => absurd h (hl orderId))
    fun orderId h => absurd h (hd orderId)

private theorem frames_placing {request : ValidRequest} {recordId : Uuid} {placing' : Placing}
    (h : placingStep p s request.val placing action = some (s', placing')) :
    Frames s (.creating request (.placing recordId placing)) s'
      (.creating request (.placing recordId placing')) := by
  cases placing with
  | inserting =>
    cases action with
    | insert newId =>
      simp only [placingStep] at h
      split at h
      · obtain ⟨rfl, rfl⟩ := Prod.mk.inj (Option.some.inj h)
        exact frames_early rfl rfl trivial (fun _ => trivial) fun _ => trivial
      · split at h
        · split at h <;> obtain ⟨rfl, rfl⟩ := Prod.mk.inj (Option.some.inj h) <;>
            exact frames_early rfl rfl trivial (fun _ => trivial) fun _ => trivial
        · cases h
    | abort =>
      obtain ⟨rfl, rfl⟩ := Prod.mk.inj (Option.some.inj h)
      exact frames_early rfl rfl trivial (fun _ => trivial) fun _ => trivial
    | _ => cases h
  | active w point => exact frames_active h
  | _ => cases action <;> cases h

private theorem frames_creating {request : ValidRequest} {progress progress' : Creating}
    (h : creatingStep p s request.val progress action = some (s', progress')) :
    Frames s (.creating request progress) s' (.creating request progress') := by
  cases progress with
  | placing recordId placing =>
    have hplacing (h : (placingStep p s request.val placing action).map
        (fun r => (r.1, Creating.placing recordId r.2)) = some (s', progress')) :
        Frames s (.creating request (.placing recordId placing)) s'
          (.creating request progress') := by
      obtain ⟨⟨s₁, placing'⟩, hstep, heq⟩ := Option.map_eq_some_iff.mp h
      obtain ⟨rfl, rfl⟩ := Prod.mk.inj heq
      exact frames_placing hstep
    cases placing with
    | committed order =>
      cases action with
      | statement =>
        obtain ⟨rfl, rfl⟩ := Prod.mk.inj (Option.some.inj h)
        exact frames_late rfl rfl id (fun _ => id) fun _ => id
      | abort =>
        obtain ⟨rfl, rfl⟩ := Prod.mk.inj (Option.some.inj h)
        exact frames_late rfl rfl id (fun _ => id) fun _ => id
      | _ => exact hplacing h
    | rolledBack =>
      cases action with
      | statement =>
        obtain ⟨rfl, rfl⟩ := Prod.mk.inj (Option.some.inj h)
        exact frames_late rfl rfl id (fun _ => id) fun _ => id
      | _ => exact hplacing h
    | _ => exact hplacing h
  | checking =>
    cases action with
    | statement =>
      simp only [creatingStep] at h
      split at h <;> obtain ⟨rfl, rfl⟩ := Prod.mk.inj (Option.some.inj h) <;>
        exact frames_early rfl rfl trivial (fun _ => trivial) fun _ => trivial
    | abort =>
      obtain ⟨rfl, rfl⟩ := Prod.mk.inj (Option.some.inj h)
      exact frames_early rfl rfl trivial (fun _ => trivial) fun _ => trivial
    | _ => cases h
  | recording =>
    cases action with
    | insert recordId =>
      simp only [creatingStep] at h
      split at h <;> obtain ⟨rfl, rfl⟩ := Prod.mk.inj (Option.some.inj h) <;>
        exact frames_early rfl rfl trivial (fun _ => trivial) fun _ => trivial
    | abort =>
      obtain ⟨rfl, rfl⟩ := Prod.mk.inj (Option.some.inj h)
      exact frames_early rfl rfl trivial (fun _ => trivial) fun _ => trivial
    | _ => cases h
  | locking recordId =>
    cases action <;> cases h
    exact frames_early rfl rfl trivial (fun _ => trivial) fun _ => trivial
  | awaitingLock recordId =>
    cases action with
    | reply reply =>
      cases reply <;> obtain ⟨rfl, rfl⟩ := Prod.mk.inj (Option.some.inj h) <;>
        exact frames_early rfl rfl trivial (fun _ => trivial) fun _ => trivial
    | _ => cases h
  | awaitingUnlock recordId =>
    cases action with
    | reply reply =>
      obtain ⟨rfl, rfl⟩ := Prod.mk.inj (Option.some.inj h)
      exact frames_late rfl rfl id (fun _ => id) fun _ => id
    | _ => cases h
  | _ => cases action <;> cases h <;> exact frames_late rfl rfl id (fun _ => id) fun _ => id

private theorem frames_cancelling {request : CancelOrderRequest} {progress progress' : Cancelling}
    (h : cancellingStep p s request progress action = some (s', progress')) :
    Frames s (.cancelling request progress) s' (.cancelling request progress') := by
  have habort (h : some (rollback p s, Cancelling.thrown .infrastructure) = some (s', progress')) :
      Frames s (.cancelling request progress) s' (.cancelling request progress') := by
    cases h
    exact frames_late rfl rfl id (fun _ => id) fun _ => id
  cases progress with
  | finding =>
    cases action with
    | statement =>
      simp only [cancellingStep] at h
      split at h
      · cases h
        exact frames_late rfl rfl id (fun _ => id) fun _ => id
      · split at h
        · cases h
          exact frames_late rfl rfl id (fun _ => id) fun _ => id
        · split at h <;> cases h
          · exact frames_late rfl rfl id (fun _ => id) fun _ => id
          · exact .of_eq rfl rfl rfl (fun _ => trivial) (fun _ => id) fun _ => id
    | abort => exact habort h
    | _ => cases h
  | removing order =>
    cases action with
    | statement =>
      cases h
      refine ⟨fun _ => trivial, fun _ => rfl, fun _ => False.elim, fun _ => id,
        fun pair side orderId hl => ?_, fun _ _ => rfl⟩
      exact score_setOrderbook ((SortedSet.score_zrem _).trans (if_neg hl))
    | abort => exact habort h
    | _ => cases h
  | deleting order =>
    cases action with
    | statement =>
      cases h
      exact ⟨fun _ => trivial, fun _ => rfl, fun _ => id, fun _ => False.elim, fun _ _ _ _ => rfl,
        fun orderId hd => Function.update_of_ne hd _ _⟩
    | abort => exact habort h
    | _ => cases h
  | updating levelTotalQuantity sequenceId =>
    cases action with
    | statement =>
      simp only [cancellingStep] at h
      split at h
      · cases h
        exact frames_late rfl rfl id (fun _ => id) fun _ => id
      · split at h <;> cases h
        exact .of_eq rfl rfl rfl (fun _ => trivial) (fun _ => id) fun _ => id
    | abort => exact habort h
    | _ => cases h
  | committing updated event =>
    cases action with
    | statement =>
      cases h
      exact ⟨fun _ => trivial, fun h => absurd trivial h, fun _ => False.elim, fun _ => False.elim,
        fun _ _ _ _ => rfl, fun _ _ => rfl⟩
    | commitUnacknowledged =>
      cases h
      exact ⟨fun _ => trivial, fun h => absurd trivial h, fun _ => False.elim, fun _ => False.elim,
        fun _ _ _ _ => rfl, fun _ _ => rfl⟩
    | abort => exact habort h
    | _ => cases h
  | unlocking cancelledOrder =>
    cases action with
    | statement =>
      simp only [cancellingStep] at h
      split at h <;> cases h <;> exact frames_late rfl rfl id (fun _ => id) fun _ => id
    | _ => cases h
  | _ =>
    cases action <;> first
      | exact habort h
      | (cases h <;> exact .of_eq rfl rfl rfl (fun h => h) (fun _ => id) fun _ => id)

theorem frames_step (h : step p s l action = some (s', l')) : Frames s l s' l' := by
  cases l with
  | idle =>
    cases action with
    | createOrder request =>
      simp only [step] at h
      split at h <;> cases h <;> exact frames_early rfl rfl trivial (fun _ => trivial) fun _ => trivial
    | cancelOrder request =>
      cases h
      exact frames_early rfl rfl trivial (fun _ => trivial) fun _ => trivial
    | passTime ms =>
      cases h
      exact frames_early rfl rfl trivial (fun _ => trivial) fun _ => trivial
    | _ => cases h
  | refused exception => cases action <;> cases h
  | creating request progress =>
    obtain ⟨⟨s₁, progress'⟩, hstep, heq⟩ := Option.map_eq_some_iff.mp h
    obtain ⟨rfl, rfl⟩ := Prod.mk.inj heq
    exact frames_creating hstep
  | cancelling request progress =>
    obtain ⟨⟨s₁, progress'⟩, hstep, heq⟩ := Option.map_eq_some_iff.mp h
    obtain ⟨rfl, rfl⟩ := Prod.mk.inj heq
    exact frames_cancelling hstep

end EtherTrade.OrdersBookWrites
