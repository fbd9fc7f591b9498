import Mathlib.Order.WithBot
import EtherTrade.LockOrders
import EtherTrade.OrderFillLaws
import EtherTrade.OrdersLockOrder

/-!
# The orders database has no deadlock

Over every interleaving of createOrder and cancelOrder calls. An insert and a cancellation
request one row and hold nothing before; an update of a maker that finds no row locks
nothing.
-/

namespace EtherTrade.OrdersDeadlockLaws

open KeyedRows AccountsSchema OrdersSchema OrderBook MatchingEngine InterleavedProcesses
open ResourceLocks LockOrders OrdersTransactions OrderFillLaws OrdersLockOrder

variable {placed : Placed} {db : OrdersDb} {p : ℕ} {s : Shared} {w : UnitOfWork} {point : Point}
  {placing : Placing} {l : Process} {action : Action} {orderId next : Uuid} {order : Order}
  {c d : OrdersConfig} {e : Event Action} {es : List (Event Action)}

/-! ### What a statement needs -/

/-- The rows that an action of a process locks. -/
def needed (db : OrdersDb) : Process → Action → List Uuid
  | .creating request (.placing _ .inserting), .insert newId =>
    if (newOrder request.val newId).isSome then [newId] else []
  | .creating _ (.placing _ (.active w (.updating maker _))), .trade _ =>
    if (w.findById db maker.orderId).isSome then [maker.orderId] else []
  | .cancelling request (.updating _ _), .statement =>
    if (cancellableOrder db request).isSome then [request.orderId] else []
  | _, _ => []

/-- The rows that the next statement of a process has yet to lock. -/
def Requests (c : OrdersConfig) (p : ℕ) (orderId : Uuid) : Prop :=
  (∃ action, orderId ∈ needed c.shared.store.db (c.procs p) action) ∧
    c.shared.locks orderId ≠ some p

/-- The edges of the waits-for graph. -/
abbrev Waits (c : OrdersConfig) : ℕ → ℕ → Prop := WaitsFor (Requests c) c.shared.locks

/-! ### Waiting -/

/-- An action of a transaction is impossible when it is not its next one, or when another holds
the row that it updates. -/
theorem activeStep_eq_none {request : ValidRequest} {recordId : Uuid} :
    activeStep p s w point action = none ↔
      activeStep p ⟨s.store, LockTable.free⟩ w point action = none ∨
        ∃ orderId ∈ needed s.store.db (.creating request (.placing recordId (.active w point)))
          action, ¬s.locks.Available p orderId := by
  cases point with
  | updating maker makerFilled =>
    cases action with
    | trade tradeId =>
      cases hrow : w.findById s.store.db maker.orderId with
      | none => simp [activeStep, needed, hrow]
      | some row =>
        by_cases havailable : s.locks.Available p maker.orderId <;>
          simp [activeStep, needed, hrow, havailable]
    | _ => simp [activeStep, needed]
  | reading orderIds => cases orderIds <;> cases action <;> simp [activeStep, needed]
  | numbering rest => cases rest <;> cases action <;> simp [activeStep, needed]
  | visiting =>
    cases action with
    | statement =>
      simp only [activeStep, needed]
      split <;> simp
    | _ => simp [activeStep, needed]
  | _ => cases action <;> simp [activeStep, needed]

theorem placingStep_eq_none {request : ValidRequest} {recordId : Uuid} :
    placingStep p s request.val placing action = none ↔
      placingStep p ⟨s.store, LockTable.free⟩ request.val placing action = none ∨
        ∃ orderId ∈ needed s.store.db (.creating request (.placing recordId placing)) action,
          ¬s.locks.Available p orderId := by
  cases placing with
  | active w point => exact activeStep_eq_none
  | inserting =>
    cases action with
    | insert newId =>
      cases horder : newOrder request.val newId with
      | none => simp [placingStep, needed, horder]
      | some order =>
        by_cases havailable : s.locks.Available p newId
        · simp only [placingStep, needed, horder, if_pos havailable, LockTable.available_free]
          split <;> simp [havailable]
        · simp [placingStep, needed, horder, havailable]
    | _ => simp [placingStep, needed]
  | _ => cases action <;> simp [placingStep, needed]

theorem creatingStep_eq_none {request : ValidRequest} {progress : Creating} :
    creatingStep p s request.val progress action = none ↔
      creatingStep p ⟨s.store, LockTable.free⟩ request.val progress action = none ∨
        ∃ orderId ∈ needed s.store.db (.creating request progress) action,
          ¬s.locks.Available p orderId := by
  cases progress with
  | placing recordId placing =>
    have hplacing : placingStep p s request.val placing action = none ↔
        placingStep p ⟨s.store, LockTable.free⟩ request.val placing action = none ∨
          ∃ orderId ∈ needed s.store.db (.creating request (.placing recordId placing)) action,
            ¬s.locks.Available p orderId := placingStep_eq_none
    cases placing <;> cases action <;> simp [creatingStep, hplacing] <;> simp [needed]
  | checking =>
    cases action with
    | statement =>
      simp only [creatingStep, needed]
      split <;> simp
    | _ => simp [creatingStep, needed]
  | awaitingLock recordId =>
    cases action with
    | reply reply => cases reply <;> simp [creatingStep, needed]
    | _ => simp [creatingStep, needed]
  | recording =>
    cases action with
    | insert recordId =>
      simp only [creatingStep, needed]
      split <;> simp
    | _ => simp [creatingStep, needed]
  | _ => cases action <;> simp [creatingStep, needed]

theorem cancellingStep_eq_none {request : CancelOrderRequest} {progress : Cancelling} :
    cancellingStep p s request progress action = none ↔
      cancellingStep p ⟨s.store, LockTable.free⟩ request progress action = none ∨
        ∃ orderId ∈ needed s.store.db (.cancelling request progress) action,
          ¬s.locks.Available p orderId := by
  cases progress with
  | updating levelTotalQuantity sequenceId =>
    cases action with
    | statement =>
      cases horder : cancellableOrder s.store.db request with
      | none => simp [cancellingStep, needed, horder]
      | some order =>
        by_cases havailable : s.locks.Available p request.orderId <;>
          simp [cancellingStep, needed, horder, havailable]
    | _ => simp [cancellingStep, needed]
  | finding =>
    cases action with
    | statement =>
      simp only [cancellingStep, needed]
      split
      · simp
      · split
        · simp
        · split <;> simp
    | _ => simp [cancellingStep, needed]
  | unlocking cancelledOrder =>
    cases action with
    | statement =>
      simp only [cancellingStep, needed]
      split <;> simp
    | _ => simp [cancellingStep, needed]
  | _ => cases action <;> simp [cancellingStep, needed]

/-- An action of a process is impossible when it is not its next one, or when it needs a row
that another holds. -/
theorem step_eq_none : step p s l action = none ↔
    step p ⟨s.store, LockTable.free⟩ l action = none ∨
      ∃ orderId ∈ needed s.store.db l action, ¬s.locks.Available p orderId := by
  cases l with
  | idle =>
    cases action with
    | createOrder request =>
      simp only [step, needed]
      split <;> simp
    | _ => simp [step, needed]
  | refused exception => cases action <;> simp [step, needed]
  | creating request progress =>
    simp only [step, Option.map_eq_none_iff]
    exact creatingStep_eq_none
  | cancelling request progress =>
    simp only [step, Option.map_eq_none_iff]
    exact cancellingStep_eq_none

/-- A process whose next action is impossible waits for another. -/
theorem exists_waits (hnext : step p ⟨c.shared.store, LockTable.free⟩ (c.procs p) action ≠ none)
    (hblocked : step p c.shared (c.procs p) action = none) : ∃ q, Waits c p q := by
  obtain hnone | ⟨orderId, hneeded, hheld⟩ := step_eq_none.mp hblocked
  · exact absurd hnone hnext
  · rw [LockTable.Available, not_or] at hheld
    obtain ⟨q, hq⟩ := Option.ne_none_iff_exists'.mp hheld.1
    exact ⟨q, fun hpq => hheld.2 (hpq ▸ hq), orderId, ⟨⟨action, hneeded⟩, hheld.2⟩, hq⟩

/-! ### Ranks -/

/-- A committed row ranks by its turn, above all rows that are not committed. -/
def rank (db : OrdersDb) (orderId : Uuid) : WithBot ((ℚ ×ₗ Uuid) ⊕ (ℚ ×ₗ Uuid)ᵒᵈ) :=
  (db.findById orderId).elim ⊥ fun row => (turn row : WithBot _)

theorem rank_eq (hdb : RowsKnown placed db) (hplaced : placed orderId = some order)
    (hrow : (db.findById orderId).isSome) : rank db orderId = (turn order : WithBot _) := by
  obtain ⟨row, hrow⟩ := Option.isSome_iff_exists.mp hrow
  obtain ⟨order', horder', hturn⟩ := hdb orderId row hrow
  have hid : row.id = orderId := (lookup_mem hrow).2
  rw [hid, hplaced] at horder'
  obtain rfl := Option.some.inj horder'
  rw [rank, hrow, Option.elim_some, hturn]

theorem rank_lt_of_ahead (hdb : RowsKnown placed db) (h : Ahead placed orderId next)
    (hrow : (db.findById orderId).isSome) (hnext : (db.findById next).isSome) :
    rank db orderId < rank db next := by
  obtain ⟨order, nextOrder, horder, hnextOrder, hlt⟩ := h
  rw [rank_eq hdb horder hrow, rank_eq hdb hnextOrder hnext]
  exact WithBot.coe_lt_coe.mpr hlt

/-- What a process holds ranks below what it has yet to lock. -/
theorem rank_lt_of_needed (hi : ProcessInOrder placed p s l)
    (hdb : RowsKnown placed s.store.db) (hneeded : orderId ∈ needed s.store.db l action)
    (hnot : s.locks orderId ≠ some p) {held : Uuid} (hheld : s.locks held = some p) :
    rank s.store.db held < rank s.store.db orderId := by
  unfold needed at hneeded
  split at hneeded
  · exact absurd hheld (hi held)
  · next w maker makerFilled tradeId =>
    split at hneeded
    · next hrow =>
      obtain rfl := List.mem_singleton.mp hneeded
      -- a row that the transaction wrote is one that it holds
      have hcommitted : (s.store.db.findById maker.orderId).isSome := by
        rw [UnitOfWork.findById, Option.isSome_or, Bool.or_eq_true] at hrow
        refine hrow.resolve_left fun hrow => hnot ?_
        obtain ⟨row, hrow⟩ := Option.isSome_iff_exists.mp hrow
        obtain ⟨hmem, hid⟩ := lookup_mem hrow
        exact hid ▸ (hi.rows row hmem).1
      rcases hi.held held hheld with rfl | ⟨-, hrow', hahead⟩
      · obtain ⟨row, hrow'⟩ := Option.isSome_iff_exists.mp hcommitted
        rw [rank, hi.fresh, rank, hrow']
        exact WithBot.bot_lt_coe _
      · exact rank_lt_of_ahead hdb (hahead _ List.mem_cons_self) hrow' hcommitted
    · cases hneeded
  · exact absurd hheld (hi held)
  · cases hneeded

/-! ### Runs -/

/-- The orders inserted so far, what is recorded of them, and what every process holds. -/
structure LocksInOrder (placed : Placed) (fs : List (Event Action)) (c : OrdersConfig) : Prop where
  inserted : ∀ orderId, (placed orderId).isSome → orderId ∈ insertedIds fs
  rows : RowsKnown placed c.shared.store.db
  book : BookKnown placed c.shared.store.valkey
  procs : ∀ p, ProcessInOrder placed p c.shared (c.procs p)

theorem locksInOrder_initial : LocksInOrder (fun _ => none) [] initial where
  inserted orderId h := by cases h
  rows orderId row h := by cases h
  book := by
    refine ⟨fun pair side orderId score h => ?_, fun orderId entry h => ?_⟩
    · cases h
    · cases h
  procs p orderId h := by cases h

theorem locksInOrder_next {fs : List (Event Action)} (hc : LocksInOrder placed fs c)
    (hids : (insertedIds (fs ++ [e])).Nodup)
    (h : ordersSystem.next c e = some d) : ∃ placed', LocksInOrder placed' (fs ++ [e]) d := by
  obtain ⟨s, l, hs, rfl⟩ := System.next_eq_some.mp h
  have hnew : ∀ newId, insertedId e.action = some newId → placed newId = none := by
    intro newId hid
    rw [insertedIds_append_singleton, hid, List.nodup_append] at hids
    refine Option.not_isSome_iff_eq_none.mp fun hsome => ?_
    exact hids.2.2 newId (hc.inserted newId hsome) newId List.mem_cons_self rfl
  obtain ⟨placed', hext, hspec⟩ := step_spec hc.rows hc.book (hc.procs e.proc) hnew hs
  refine ⟨placed', fun orderId hsome => ?_, hspec.rows, hspec.book, fun q => ?_⟩
  · rw [insertedIds_append_singleton, List.mem_append]
    exact (hext.new orderId hsome).imp (hc.inserted orderId) fun hid => Option.mem_toList.mpr hid
  · by_cases hq : q = e.proc
    · subst hq
      simpa using hspec.own
    · have hother : ProcessInOrder placed' q s (c.procs q) :=
        hspec.frame.processInOrder hq ((hc.procs q).mono hext.kept)
      simpa [Function.update_of_ne hq] using hother

theorem LocksInOrder.ranked {fs : List (Event Action)} (hc : LocksInOrder placed fs c) :
    Ranked (rank c.shared.store.db) (Requests c) c.shared.locks := by
  intro p orderId held ⟨⟨action, hneeded⟩, hnot⟩ hheld
  exact rank_lt_of_needed (hc.procs p) hc.rows hneeded hnot hheld

theorem exists_locksInOrder (h : ordersSystem.exec initial es = some c)
    (hids : (insertedIds es).Nodup) :
    ∃ placed, LocksInOrder placed es c := by
  have hrun : ordersSystem.Run (fun _ _ => True) initial es c :=
    .of_transitions h fun _ _ => trivial
  refine hrun.history_invariant (I := fun fs c =>
    (insertedIds fs).Nodup → ∃ placed, LocksInOrder placed fs c)
    (fun _ => ⟨_, locksInOrder_initial⟩) (fun fs c e d hc _ hnext hids => ?_) hids
  obtain ⟨placed, hplaced⟩ := hc (hids.sublist ((List.sublist_append_left fs [e]).filterMap _))
  exact locksInOrder_next hplaced hids hnext

/-- No process is blocked for ever by others: who is blocked waits for another, nobody waits
for itself through others, and of finitely many processes that wait only among themselves one
does not wait. -/
structure DeadlockFree (c : OrdersConfig) : Prop where
  blocked : ∀ p action, step p ⟨c.shared.store, LockTable.free⟩ (c.procs p) action ≠ none →
    step p c.shared (c.procs p) action = none → ∃ q, Waits c p q
  acyclic : ∀ p, ¬Relation.TransGen (Waits c) p p
  unblocked : ∀ P : Finset ℕ, P.Nonempty → (∀ p ∈ P, ∀ q, Waits c p q → q ∈ P) →
    ∃ p ∈ P, ∀ q, ¬Waits c p q

/-- The orders database has no deadlock: in every reachable state of any number of concurrent
calls, as long as generated ids are distinct. -/
theorem orders_deadlockFree (h : ordersSystem.exec initial es = some c)
    (hids : (insertedIds es).Nodup) : DeadlockFree c := by
  obtain ⟨placed, hplaced⟩ := exists_locksInOrder h hids
  have hacyclic (p : ℕ) : ¬Relation.TransGen (Waits c) p p := hplaced.ranked.acyclic p
  exact ⟨fun p action => exists_waits, hacyclic, fun P hne => exists_not_waiting hne hacyclic⟩

/-- The second of two buyers waits for the first, which has traded with their maker. -/
def waitingTaker : List (Event Action) :=
  offer ++ opening 1 (limitOrder "first" .buy 100 1) "a" ++
    opening 2 (limitOrder "second" .buy 100 1) "b" ++ statements 1 4 ++ statements 2 4 ++
      [⟨1, .trade "t"⟩]

theorem waitingTaker_executes : (ordersSystem.exec initial waitingTaker).isSome = true := by
  decide +kernel

theorem orders_deadlockFree_waitingTaker :
    let c := (ordersSystem.exec initial waitingTaker).get waitingTaker_executes
    Waits c 2 1 ∧ DeadlockFree c :=
  ⟨⟨by decide, "m", ⟨⟨.trade "u", by decide +kernel⟩, by decide +kernel⟩, by decide +kernel⟩,
    orders_deadlockFree (Option.some_get _).symm (by decide +kernel)⟩

end EtherTrade.OrdersDeadlockLaws
