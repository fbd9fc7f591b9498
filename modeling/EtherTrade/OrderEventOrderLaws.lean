import EtherTrade.OrderEventRelay
import EtherTrade.OrdersTransactionSteps
import EtherTrade.OutboxOrderLaws

/-!
# Events of a pair in the order of their sequence ids

The sequence ids that a transaction draws increase, and so do those that are sent to a
topic, in every run in which transactions commit before a later id is fetched, begin in the
order of their ids, and workers neither overlap nor send twice.
-/

namespace EtherTrade.OrderEventOrderLaws

open AccountsSchema OrdersSchema OrderBook MatchingEngine OrdersTransactionSteps
open InterleavedProcesses ResourceLocks OrderEventRelay OutboxOrderLaws
open OutboxRelay (OutboxRow)
open TradeSettlement (TradingSymbol)

variable {pair : TradingSymbol} {p : ℕ}

/-- The sequence id of an event of the pair. -/
def sequenceOf (pair : TradingSymbol) (event : OutboxEvent) : Option ℕ :=
  match sequenceId event with
  | some (symbol, n) => if symbol = pair then some n else none
  | none => none

/-- The sequence id of an event of the pair that goes to a topic. -/
def numberOf (pair : TradingSymbol) (topic : Topic) (event : OutboxEvent) : Option ℕ :=
  if topicOf event = topic then sequenceOf pair event else none

/-- The sequence ids that have arrived at a topic, in order. -/
def sentSequence (pair : TradingSymbol) (topic : Topic) (c : EventConfig) : List ℕ :=
  (arrived c.shared.outbox.store).filterMap fun r => numberOf pair topic r.event

/-- What a call commits with its next statement. -/
def uncommitted : OrdersTransactions.Process → List OutboxEvent
  | .creating _ (.placing _ (.active w .committing)) => w.outboxList
  | .cancelling _ (.committing _ event) => [event]
  | _ => []

/-- The rows that a step of a call inserts, if it commits. -/
def insertedRows (l : Process) : Action → List (OutboxRow OutboxEvent)
  | .order _ eventIds => outboxRows eventIds (uncommitted l.call) (l.beganAt.getD 0)
  | _ => []

def relayed : Action → Option (OutboxRelay.Action OutboxEvent)
  | .relay action => some action
  | _ => none

/-- The condition on a step under which the events of a pair are sent in order. -/
def KeepsPairOrder (pair : TradingSymbol) (topic : Topic) (s : Shared) (l : Process)
    (action : Action) : Prop :=
  (∀ r ∈ insertedRows l action, ComesInOrder (numberOf pair topic) s.outbox r) ∧
    ∀ a ∈ relayed action, KeepsOrder (numberOf pair topic) s.outbox l.worker a

instance (topic : Topic) (s : Shared) (l : Process) (action : Action) :
    Decidable (KeepsPairOrder pair topic s l action) :=
  inferInstanceAs (Decidable (_ ∧ _))

def Guard (pair : TradingSymbol) (c : EventConfig) (e : Event Action) : Prop :=
  ∀ topic, KeepsPairOrder pair topic c.shared (c.procs e.proc) e.action

/-! ### The sequence ids of a transaction -/

/-- Increasing numbers that do not exceed a counter. -/
structure Stamped (numbers : List ℕ) (counter : ℕ) : Prop where
  le : ∀ n ∈ numbers, n ≤ counter
  increasing : numbers.Pairwise (· < ·)

theorem stamped_nil {counter : ℕ} : Stamped [] counter := ⟨nofun, .nil⟩

theorem Stamped.weaken {numbers : List ℕ} {counter next : ℕ} (h : Stamped numbers counter)
    (hle : counter ≤ next) : Stamped numbers next :=
  ⟨fun n hn => (h.le n hn).trans hle, h.increasing⟩

theorem Stamped.append {numbers : List ℕ} {counter : ℕ} (h : Stamped numbers counter) :
    Stamped (numbers ++ [counter + 1]) (counter + 1) := by
  refine ⟨fun n hn => ?_, List.pairwise_append.2 ⟨h.increasing, List.pairwise_singleton _ _, ?_⟩⟩
  · rcases List.mem_append.1 hn with hold | hnew
    · exact (h.le n hold).trans (Nat.le_succ counter)
    · exact (List.mem_singleton.1 hnew).le
  · intro m hm n hn
    rw [List.mem_singleton.1 hn]
    exact Nat.lt_succ_of_le (h.le m hm)

def sequenceIds (pair : TradingSymbol) (events : List OutboxEvent) : List ℕ :=
  events.filterMap (sequenceOf pair)

/-- The sequence ids of the pair that a transaction has drawn. -/
def drawn (pair : TradingSymbol) : OrdersTransactions.Placing → List ℕ
  | .active w (.totalling n) =>
    sequenceIds pair w.outboxList ++ if w.takerOrder.pair = pair then [n] else []
  | .active w _ => sequenceIds pair w.outboxList
  | _ => []

section Steps

open OrdersTransactions

variable {s s' : OrdersTransactions.Shared} {w : UnitOfWork} {point : Point}
  {placing placing' : Placing} {action : OrdersTransactions.Action}

def drawnBy (pair : TradingSymbol) : OrdersTransactions.Process → List ℕ
  | .creating _ (.placing _ placing) => drawn pair placing
  | _ => []

/-- What a step does to the counter of the pair and to the numbers that a call has drawn from
it. -/
structure Draws (pair : TradingSymbol) (s : OrdersTransactions.Shared) (numbers : List ℕ)
    (s' : OrdersTransactions.Shared) (numbers' : List ℕ) : Prop where
  le : s.store.valkey.sequences pair ≤ s'.store.valkey.sequences pair
  stamped : Stamped numbers (s.store.valkey.sequences pair) →
    Stamped numbers' (s'.store.valkey.sequences pair)

theorem Draws.same {numbers : List ℕ}
    (h : s'.store.valkey.sequences = s.store.valkey.sequences) : Draws pair s numbers s' numbers := by
  constructor
  · rw [h]
  · rw [h]
    exact id

theorem Draws.nothing {numbers : List ℕ}
    (h : s.store.valkey.sequences pair ≤ s'.store.valkey.sequences pair) :
    Draws pair s numbers s' [] := ⟨h, fun _ => stamped_nil⟩

theorem sequences_nextSequence {v : Valkey} {symbol : TradingSymbol} :
    (v.nextSequence symbol).1.sequences pair =
      if pair = symbol then v.sequences pair + 1 else v.sequences pair := by
  change Function.update v.sequences symbol _ pair = _
  rw [Function.update_apply]
  split
  · next h => rw [h]
  · rfl

theorem sequences_le_nextSequence {v : Valkey} {symbol : TradingSymbol} :
    v.sequences pair ≤ (v.nextSequence symbol).1.sequences pair := by
  rw [sequences_nextSequence]
  split <;> omega

/-- Drawing the next number of some pair. -/
theorem Draws.next {numbers : List ℕ} {symbol : TradingSymbol} :
    Draws pair s numbers (setValkey s (s.store.valkey.nextSequence symbol).1)
      (numbers ++ if symbol = pair then [(s.store.valkey.nextSequence symbol).2] else []) := by
  have hcounter : (setValkey s (s.store.valkey.nextSequence symbol).1).store.valkey.sequences pair =
      if pair = symbol then s.store.valkey.sequences pair + 1 else s.store.valkey.sequences pair :=
    sequences_nextSequence
  by_cases hpair : symbol = pair
  · subst hpair
    rw [if_pos rfl] at hcounter
    constructor
    · omega
    · rw [hcounter, if_pos rfl]
      exact Stamped.append
  · rw [if_neg (Ne.symm hpair)] at hcounter
    constructor
    · omega
    · rw [hcounter, if_neg hpair, List.append_nil]
      exact id

/-- A numbered event adds its number. -/
theorem sequenceIds_append {events : List OutboxEvent} {event : OutboxEvent}
    {symbol : TradingSymbol} {n : ℕ} (h : sequenceId event = some (symbol, n)) :
    sequenceIds pair (events ++ [event]) =
      sequenceIds pair events ++ if symbol = pair then [n] else [] := by
  rw [sequenceIds, List.filterMap_append, ← sequenceIds]
  congr 1
  by_cases hpair : symbol = pair <;> simp [sequenceOf, h, hpair]

theorem sequenceIds_orderFilledEvents {events : List OutboxEvent} :
    sequenceIds pair (events ++ w.orderFilledEvents) = sequenceIds pair events := by
  have hnone : w.orderFilledEvents.filterMap (sequenceOf pair) = [] := by
    refine List.filterMap_eq_nil_iff.2 fun event hevent => ?_
    obtain ⟨order, -, rfl⟩ := List.mem_map.1 hevent
    rfl
  rw [sequenceIds, List.filterMap_append, hnone, List.append_nil, sequenceIds]

/-- A unit of work draws the numbers that it writes down. -/
theorem draws_activeStep (h : activeStep p s w point action = some (s', placing)) :
    Draws pair s (drawn pair (.active w point)) s' (drawn pair placing) := by
  cases action with
  | abort =>
    obtain ⟨rfl, rfl⟩ := activeStep_abort h
    exact .nothing le_rfl
  | commitUnacknowledged =>
    cases point with
    | committing =>
      obtain ⟨rfl, rfl⟩ := Prod.mk.inj (Option.some.inj h)
      exact .nothing le_rfl
    | reading ids => cases ids <;> cases h
    | numbering rest => cases rest <;> cases h
    | _ => cases h
  | trade tradeId =>
    cases point with
    | updating maker makerFilled =>
      simp only [activeStep] at h
      split at h
      · obtain ⟨rfl, rfl⟩ := Prod.mk.inj (Option.some.inj h)
        split <;> exact .same rfl
      · split at h
        · obtain ⟨rfl, rfl⟩ := Prod.mk.inj (Option.some.inj h)
          split <;> exact .same rfl
        · cases h
    | reading ids => cases ids <;> cases h
    | numbering rest => cases rest <;> cases h
    | _ => cases h
  | statement =>
    cases point with
    | sequencing =>
      obtain ⟨rfl, rfl⟩ := Prod.mk.inj (Option.some.inj h)
      exact .next
    | totalling n =>
      obtain ⟨rfl, rfl⟩ := Prod.mk.inj (Option.some.inj h)
      have hids : drawn pair (.active (w.emit [orderPlacedEvent w.takerOrder
          (s.store.valkey.getLevelTotalQuantity w.takerOrder.pair w.takerOrder.side
            w.takerOrder.price) n]) .ranging) = drawn pair (.active w (.totalling n)) :=
        sequenceIds_append rfl
      rw [hids]
      exact .same rfl
    | numbering rest =>
      cases rest with
      | nil =>
        obtain ⟨rfl, rfl⟩ := Prod.mk.inj (Option.some.inj h)
        have hids : drawn pair (.active (w.emit w.orderFilledEvents) .committing) =
            drawn pair (.active w (.numbering [])) := sequenceIds_orderFilledEvents
        rw [hids]
        exact .same rfl
      | cons trade rest =>
        obtain ⟨rfl, rfl⟩ := Prod.mk.inj (Option.some.inj h)
        have hids : drawn pair (.active (w.emit [tradeExecutedEvent trade
            (s.store.valkey.sequences trade.symbol + 1)]) (.numbering rest)) =
              drawn pair (.active w (.numbering (trade :: rest))) ++
                if trade.symbol = pair then [s.store.valkey.sequences trade.symbol + 1] else [] :=
          sequenceIds_append rfl
        rw [hids]
        exact .next
    | reading ids =>
      cases ids <;> obtain ⟨rfl, rfl⟩ := Prod.mk.inj (Option.some.inj h) <;> exact .same rfl
    | visiting =>
      simp only [activeStep] at h
      split at h <;> obtain ⟨rfl, rfl⟩ := Prod.mk.inj (Option.some.inj h) <;> exact .same rfl
    | updatingTaker =>
      obtain ⟨rfl, rfl⟩ := Prod.mk.inj (Option.some.inj h)
      split <;> exact .same rfl
    | committing =>
      obtain ⟨rfl, rfl⟩ := Prod.mk.inj (Option.some.inj h)
      exact .nothing le_rfl
    | updating maker makerFilled => cases h
    | _ =>
      obtain ⟨rfl, rfl⟩ := Prod.mk.inj (Option.some.inj h)
      exact .same rfl
  | _ =>
    cases point with
    | reading ids => cases ids <;> cases h
    | numbering rest => cases rest <;> cases h
    | _ => cases h

theorem draws_placingStep {request : CreateOrderRequest}
    (h : placingStep p s request placing action = some (s', placing')) :
    Draws pair s (drawn pair placing) s' (drawn pair placing') := by
  cases placing with
  | inserting =>
    cases action with
    | insert newId =>
      simp only [placingStep] at h
      split at h
      · obtain ⟨rfl, rfl⟩ := Prod.mk.inj (Option.some.inj h)
        exact .nothing le_rfl
      · split at h
        · split at h <;> obtain ⟨rfl, rfl⟩ := Prod.mk.inj (Option.some.inj h) <;>
            exact .nothing le_rfl
        · cases h
    | abort =>
      obtain ⟨rfl, rfl⟩ := Prod.mk.inj (Option.some.inj h)
      exact .nothing le_rfl
    | _ => cases h
  | active w point => exact draws_activeStep h
  | _ => cases action <;> cases h

theorem drawnBy_resolveRecord {request : ValidRequest} {record : IdempotencyRecord} :
    drawnBy pair (.creating request (resolveRecord request.val record)) = [] := by
  unfold resolveRecord
  split
  · rfl
  · rfl
  · split <;> rfl

/-- A call that has not reached its transaction, or has left it, draws nothing. -/
theorem draws_creatingStep {request : ValidRequest} {progress progress' : Creating}
    (h : creatingStep p s request.val progress action = some (s', progress')) :
    Draws pair s (drawnBy pair (.creating request progress)) s'
      (drawnBy pair (.creating request progress')) := by
  cases progress with
  | placing recordId placing =>
    have hplacing (h : (placingStep p s request.val placing action).map
        (fun r => (r.1, Creating.placing recordId r.2)) = some (s', progress')) :
        Draws pair s (drawn pair placing) s' (drawnBy pair (.creating request progress')) := by
      obtain ⟨⟨s₁, placing'⟩, hstep, heq⟩ := Option.map_eq_some_iff.mp h
      obtain ⟨rfl, rfl⟩ := Prod.mk.inj heq
      exact draws_placingStep hstep
    cases placing with
    | committed order =>
      cases action with
      | statement | abort =>
        obtain ⟨rfl, rfl⟩ := Prod.mk.inj (Option.some.inj h)
        exact .nothing le_rfl
      | _ => exact hplacing h
    | rolledBack =>
      cases action with
      | statement =>
        obtain ⟨rfl, rfl⟩ := Prod.mk.inj (Option.some.inj h)
        exact .nothing le_rfl
      | _ => exact hplacing h
    | _ => exact hplacing h
  | checking =>
    cases action with
    | statement =>
      simp only [creatingStep] at h
      split at h <;> obtain ⟨rfl, rfl⟩ := Prod.mk.inj (Option.some.inj h)
      · exact .same rfl
      · next record =>
        rw [drawnBy_resolveRecord]
        exact .nothing le_rfl
    | abort =>
      obtain ⟨rfl, rfl⟩ := Prod.mk.inj (Option.some.inj h)
      exact .same rfl
    | _ => cases h
  | recording =>
    cases action with
    | insert recordId =>
      simp only [creatingStep] at h
      split at h <;> obtain ⟨rfl, rfl⟩ := Prod.mk.inj (Option.some.inj h) <;> exact .same rfl
    | abort =>
      obtain ⟨rfl, rfl⟩ := Prod.mk.inj (Option.some.inj h)
      exact .same rfl
    | _ => cases h
  | awaitingLock recordId =>
    cases action with
    | reply reply =>
      cases reply <;> obtain ⟨rfl, rfl⟩ := Prod.mk.inj (Option.some.inj h) <;> exact .same rfl
    | _ => cases h
  | _ => cases action <;> cases h <;> exact .same rfl

/-- A cancellation draws one number, which nothing that it draws has to follow. -/
theorem draws_cancellingStep {request : CancelOrderRequest} {progress progress' : Cancelling}
    (h : cancellingStep p s request progress action = some (s', progress')) :
    Draws pair s [] s' [] := by
  have habort (h : some (rollback p s, Cancelling.thrown .infrastructure) = some (s', progress')) :
      Draws pair s [] s' [] := by
    cases h
    exact .same rfl
  cases progress with
  | finding =>
    cases action with
    | statement =>
      simp only [cancellingStep] at h
      split at h
      · cases h
        exact .same rfl
      · split at h
        · cases h
          exact .same rfl
        · split at h <;> cases h <;> exact .same rfl
    | abort => exact habort h
    | _ => cases h
  | sequencing order =>
    cases action with
    | statement =>
      cases h
      exact .nothing sequences_le_nextSequence
    | abort => exact habort h
    | _ => cases h
  | updating levelTotalQuantity n =>
    cases action with
    | statement =>
      simp only [cancellingStep] at h
      split at h
      · cases h
        exact .same rfl
      · split at h
        · cases h
          exact .same rfl
        · cases h
    | abort => exact habort h
    | _ => cases h
  | unlocking cancelledOrder =>
    cases action with
    | statement =>
      simp only [cancellingStep] at h
      split at h <;> cases h <;> exact .same rfl
    | _ => cases h
  | _ =>
    cases action with
    | abort => first | exact habort h | cases h
    | _ => cases h <;> exact .same rfl

theorem draws_step {l l' : OrdersTransactions.Process}
    (h : OrdersTransactions.step p s l action = some (s', l')) :
    Draws pair s (drawnBy pair l) s' (drawnBy pair l') := by
  cases l with
  | idle =>
    cases action with
    | createOrder request =>
      simp only [OrdersTransactions.step] at h
      split at h <;> cases h <;> exact .same rfl
    | cancelOrder request | passTime ms =>
      cases h
      exact .same rfl
    | _ => cases h
  | refused exception => cases h
  | creating request progress =>
    simp only [OrdersTransactions.step, Option.map_eq_some_iff, Prod.mk.injEq] at h
    obtain ⟨⟨s₁, progress'⟩, hstep, rfl, rfl⟩ := h
    exact draws_creatingStep hstep
  | cancelling request progress =>
    simp only [OrdersTransactions.step, Option.map_eq_some_iff, Prod.mk.injEq] at h
    obtain ⟨⟨s₁, progress'⟩, hstep, rfl, rfl⟩ := h
    exact draws_cancellingStep hstep

/-- A step commits nothing or all that its call has written. -/
theorem outboxEvents_step {l l' : OrdersTransactions.Process}
    (h : OrdersTransactions.step p s l action = some (s', l')) :
    s'.store.db.outboxEvents = s.store.db.outboxEvents ∨
      s'.store.db.outboxEvents = s.store.db.outboxEvents ++ uncommitted l := by
  cases step_cases h with
  | quiet _ hevents => exact .inl hevents
  | placed hstep =>
    cases hstep with
    | quiet hdb => exact .inl (congrArg OrdersDb.outboxEvents hdb)
    | committed => exact .inr rfl
    | _ => exact .inl rfl
  | cancelled => exact .inr rfl
  | _ => exact .inl rfl

/-- What a step adds to the committed events. -/
theorem drop_outboxEvents {l l' : OrdersTransactions.Process}
    (h : OrdersTransactions.step p s l action = some (s', l')) :
    s'.store.db.outboxEvents.drop s.store.db.outboxEvents.length = [] ∨
      s'.store.db.outboxEvents.drop s.store.db.outboxEvents.length = uncommitted l := by
  rcases outboxEvents_step h with hevents | hevents <;> rw [hevents]
  · exact .inl List.drop_length
  · exact .inr List.drop_left

/-- The numbers of what a call commits increase. -/
theorem uncommitted_increasing {l : OrdersTransactions.Process} {counter : ℕ}
    (h : Stamped (drawnBy pair l) counter) : (uncommitted l).Pairwise fun event event' =>
      ∀ m ∈ sequenceOf pair event, ∀ n ∈ sequenceOf pair event', m < n := by
  unfold uncommitted
  split
  · exact List.pairwise_filterMap.1 h.increasing
  · exact List.pairwise_singleton _ _
  · exact .nil

end Steps

/-! ### Projection to the outbox -/

/-- The outbox and its workers. -/
def outboxConfig (c : EventConfig) : OutboxRelay.RelayConfig OutboxEvent :=
  ⟨c.shared.outbox, fun p => (c.procs p).worker⟩

theorem outboxConfig_update {c : EventConfig} {s : Shared} {l : Process} :
    outboxConfig ⟨s, Function.update c.procs p l⟩ =
      ⟨s.outbox, Function.update (outboxConfig c).procs p l.worker⟩ := by
  refine congrArg _ (funext fun q => ?_)
  by_cases hq : q = p
  · subst hq
    simp [outboxConfig]
  · simp [outboxConfig, Function.update_of_ne hq]

theorem map_event_outboxRows {ids : List Uuid} {events : List OutboxEvent} (createdAt : ℕ)
    (h : ids.length = events.length) :
    (outboxRows ids events createdAt).map OutboxRow.event = events := by
  induction events generalizing ids with
  | nil => simp [outboxRows]
  | cons event events ih =>
    cases ids with
    | nil => cases h
    | cons id ids => exact congrArg (event :: ·) (ih (Nat.succ.inj h))

theorem createdAt_outboxRows {ids : List Uuid} {events : List OutboxEvent} {createdAt : ℕ}
    {r : OutboxRow OutboxEvent} (h : r ∈ outboxRows ids events createdAt) :
    r.createdAt = createdAt := by
  obtain ⟨i, hi, rfl⟩ := List.mem_iff_getElem.1 h
  simp [outboxRows]

theorem sequenceOf_of_numberOf {topic : Topic} {event : OutboxEvent} {n : ℕ}
    (h : n ∈ numberOf pair topic event) : n ∈ sequenceOf pair event := by
  unfold numberOf at h
  split at h
  · exact h
  · cases h

/-- The rows of one transaction are in step. -/
theorem inStep_outboxRows {ids : List Uuid} {events : List OutboxEvent} {createdAt : ℕ}
    {topic : Topic} (hlength : ids.length = events.length)
    (h : events.Pairwise fun event event' =>
      ∀ m ∈ sequenceOf pair event, ∀ n ∈ sequenceOf pair event', m < n) :
    (outboxRows ids events createdAt).Pairwise (InStep (numberOf pair topic)) := by
  rw [← map_event_outboxRows createdAt hlength, List.pairwise_map] at h
  refine h.imp_of_mem fun {r r'} hr hr' hbefore => ⟨fun m hm n hn => ?_, ?_⟩
  · exact hbefore m (sequenceOf_of_numberOf hm) n (sequenceOf_of_numberOf hn)
  · rw [createdAt_outboxRows hr, createdAt_outboxRows hr']

/-! ### The invariant -/

structure PairOrdered (pair : TradingSymbol) (c : EventConfig) : Prop where
  ordered : ∀ topic, Ordered (numberOf pair topic) (outboxConfig c)
  stamped : ∀ p, Stamped (drawnBy pair (c.procs p).call)
    (c.shared.orders.store.valkey.sequences pair)

variable {c d : EventConfig} {e : Event Action} {es : List (Event Action)}
  {call : OrdersTransactions.Process} {beganAt : Option ℕ}

/-- Whatever the numbers of the others, they stay below a counter that only grows. -/
theorem stamped_update {s' : Shared} {l' : Process}
    (h : ∀ q, Stamped (drawnBy pair (c.procs q).call)
      (c.shared.orders.store.valkey.sequences pair))
    (hdraws : Draws pair c.shared.orders (drawnBy pair (c.procs p).call) s'.orders
      (drawnBy pair l'.call)) (q : ℕ) :
    Stamped (drawnBy pair (Function.update c.procs p l' q).call)
      (s'.orders.store.valkey.sequences pair) := by
  by_cases hq : q = p
  · subst hq
    rw [Function.update_self]
    exact hdraws.stamped (h q)
  · rw [Function.update_of_ne hq]
    exact (h q).weaken hdraws.le

/-- A step of the outbox keeps the order, whatever the orders service does. -/
theorem ordered_outboxStep {number : OutboxEvent → Option ℕ} {s' : Shared} {l' : Process}
    {action : OutboxRelay.Action OutboxEvent} (h : Ordered number (outboxConfig c))
    (hguard : KeepsOrder number c.shared.outbox (c.procs p).worker action)
    (hstep : OutboxRelay.step p c.shared.outbox (c.procs p).worker action =
      some (s'.outbox, l'.worker)) :
    Ordered number (outboxConfig ⟨s', Function.update c.procs p l'⟩) :=
  h.next (e := ⟨p, action⟩) hguard
    (System.next_eq_some.2 ⟨s'.outbox, l'.worker, hstep, outboxConfig_update⟩)

theorem insertMany_idle {o o' : OutboxRelay.Shared OutboxEvent}
    {rows : List (OutboxRow OutboxEvent)} {worker : OutboxRelay.Process OutboxEvent}
    (h : OutboxRelay.step p o .idle (.insertMany rows) = some (o', worker)) : worker = .idle := by
  cases OutboxRelayLaws.step_effect h
  rfl

/-- What a call commits comes in order. -/
theorem insertsInOrder_committed {topic : Topic} {action : OrdersTransactions.Action}
    {eventIds : List Uuid} {events : List OutboxEvent}
    (hproc : c.procs p = .ordering call beganAt)
    (hstamped : ∀ q, Stamped (drawnBy pair (c.procs q).call)
      (c.shared.orders.store.valkey.sequences pair))
    (hguard : KeepsPairOrder pair topic c.shared (.ordering call beganAt) (.order action eventIds))
    (hlength : eventIds.length = events.length)
    (hevents : events = [] ∨ events = uncommitted call) :
    InsertsInOrder (numberOf pair topic) c.shared.outbox
      (outboxRows eventIds events (beganAt.getD 0)) := by
  rcases hevents with rfl | rfl
  · rw [outboxRows, List.zipWith_nil_right]
    exact ⟨.nil, fun r hr => absurd hr List.not_mem_nil⟩
  · have hcall : (c.procs p).call = call := by rw [hproc, Process.call]
    have hdrawn := hstamped p
    rw [hcall] at hdrawn
    exact ⟨inStep_outboxRows hlength (uncommitted_increasing hdrawn), hguard.1⟩

/-- A step of a call inserts rows in step. -/
theorem PairOrdered.orderingStep (h : PairOrdered pair c) {action : OrdersTransactions.Action}
    {eventIds : List Uuid} {s' : Shared} {l' : Process}
    (hproc : c.procs p = .ordering call beganAt)
    (hguard : ∀ topic, KeepsPairOrder pair topic c.shared (.ordering call beganAt)
      (.order action eventIds))
    (hstep : OrderEventRelay.orderingStep p c.shared call beganAt action eventIds =
      some (s', l')) : PairOrdered pair ⟨s', Function.update c.procs p l'⟩ := by
  rw [OrderEventRelay.orderingStep] at hstep
  split at hstep
  · cases hstep
  · obtain ⟨⟨orders, call'⟩, horders, hstep⟩ := Option.bind_eq_some_iff.1 hstep
    simp only at hstep
    split at hstep
    · next hlength =>
      obtain ⟨⟨outbox, worker'⟩, hinsert, heq⟩ := Option.map_eq_some_iff.1 hstep
      obtain ⟨rfl, rfl⟩ := Prod.mk.inj heq
      obtain rfl := insertMany_idle hinsert
      have hdraws : Draws pair c.shared.orders (drawnBy pair call) orders (drawnBy pair call') :=
        draws_step horders
      have hworker : (c.procs p).worker = .idle := by rw [hproc]; rfl
      refine ⟨fun topic => ordered_outboxStep (h.ordered topic) ?_ (by rwa [hworker]),
        stamped_update h.stamped (by rwa [hproc])⟩
      rw [hworker]
      exact keepsOrder_insertMany (insertsInOrder_committed hproc h.stamped (hguard topic) hlength
        (drop_outboxEvents horders))
    · cases hstep

/-- A step of a worker leaves the orders service alone. -/
theorem PairOrdered.relayStep (h : PairOrdered pair c)
    {action : OutboxRelay.Action OutboxEvent} {worker : OutboxRelay.Process OutboxEvent}
    {s' : Shared} {l' : Process}
    (hworker : (c.procs p).worker = worker) (hcall : (c.procs p).call = .idle)
    (hguard : ∀ topic, KeepsOrder (numberOf pair topic) c.shared.outbox worker action)
    (hstep : OrderEventRelay.relayStep p c.shared worker action = some (s', l')) :
    PairOrdered pair ⟨s', Function.update c.procs p l'⟩ := by
  have hinner : ∃ r, OutboxRelay.step p c.shared.outbox worker action = some r ∧
      (s', l') = (⟨c.shared.orders, r.1⟩, .relaying r.2) := by
    unfold OrderEventRelay.relayStep at hstep
    split at hstep
    · cases hstep
    · obtain ⟨r, hr, heq⟩ := Option.map_eq_some_iff.1 hstep
      exact ⟨r, hr, heq.symm⟩
  obtain ⟨⟨outbox, worker'⟩, hrelay, heq⟩ := hinner
  obtain ⟨rfl, rfl⟩ := Prod.mk.inj heq
  subst hworker
  refine ⟨fun topic => ordered_outboxStep (h.ordered topic) (hguard topic) hrelay,
    stamped_update h.stamped ?_⟩
  rw [hcall]
  exact .same rfl

theorem PairOrdered.beginTransaction {beganAt' : Option ℕ} (h : PairOrdered pair c)
    (hproc : c.procs p = .ordering call beganAt) :
    PairOrdered pair ⟨c.shared, Function.update c.procs p (.ordering call beganAt')⟩ := by
  have hsame : outboxConfig ⟨c.shared, Function.update c.procs p (.ordering call beganAt')⟩ =
      outboxConfig c := by
    have hworker : (outboxConfig c).procs p = .idle := by
      change (c.procs p).worker = .idle
      rw [hproc, Process.worker]
    rw [outboxConfig_update, Process.worker, ← hworker, Function.update_eq_self]
    rfl
  refine ⟨fun topic => ?_, stamped_update h.stamped ?_⟩
  · rw [hsame]
    exact h.ordered topic
  · rw [hproc]
    exact .same rfl

theorem PairOrdered.next (h : PairOrdered pair c) (hguard : Guard pair c e)
    (hnext : eventSystem.next c e = some d) : PairOrdered pair d := by
  obtain ⟨s', l', hstep, rfl⟩ := System.next_eq_some.1 hnext
  rw [Guard] at hguard
  generalize hproc : c.procs e.proc = l at hstep hguard
  change step e.proc c.shared l e.action = some (s', l') at hstep
  generalize e.action = action at hstep hguard
  unfold step at hstep
  split at hstep
  · split at hstep
    · obtain ⟨rfl, rfl⟩ := Prod.mk.inj (Option.some.inj hstep)
      exact h.beginTransaction hproc
    · cases hstep
  · exact h.orderingStep hproc hguard hstep
  · exact h.relayStep (by rw [hproc, Process.worker]) (by rw [hproc, Process.call])
      (fun topic => (hguard topic).2 _ rfl) hstep
  · exact h.relayStep (by rw [hproc, Process.worker]) (by rw [hproc, Process.call])
      (fun topic => (hguard topic).2 _ rfl) hstep
  · cases hstep

theorem pairOrdered_initial : PairOrdered pair initial where
  ordered _ := ordered_initial
  stamped _ := stamped_nil

/-- In every run under the condition, the sequence ids of a pair arrive at each topic in
increasing order. -/
theorem sent_in_order (h : eventSystem.Run (Guard pair) initial es d) (topic : Topic) :
    (sentSequence pair topic d).Pairwise (· < ·) := by
  have hordered : PairOrdered pair d :=
    h.invariant pairOrdered_initial fun _ _ _ hc hguard hnext => hc.next hguard hnext
  exact pairwise_numbers (hordered.ordered topic).arrived

/-! ### Two runs -/

def sellOffer (userId : Uuid) : CreateOrderRequest :=
  ⟨userId, ⟨.eth, .usdt⟩, .sell, .limit, ⟨"100", .finite 100⟩, ⟨"1", .finite 1⟩, userId⟩

/-- An order that is about to be committed. Its user id is its id and its key. -/
def placing (p : ℕ) (id : Uuid) : List (Event Action) :=
  [⟨p, .order (.createOrder (sellOffer id)) []⟩, ⟨p, .order .statement []⟩,
    ⟨p, .order (.insert id) []⟩, ⟨p, .order .statement []⟩, ⟨p, .order (.reply .ok) []⟩,
    ⟨p, .beginTransaction⟩, ⟨p, .order (.insert id) []⟩] ++
      List.replicate 9 ⟨p, .order .statement []⟩

def committing (p : ℕ) (id : Uuid) : Event Action := ⟨p, .order .statement [id]⟩

def placedRow (id : Uuid) (levelTotalQuantity : ℤ) (n : ℕ) : OutboxRow OutboxEvent :=
  ⟨id, orderPlacedEvent ⟨id, id, ⟨.eth, .usdt⟩, .sell, .limit, 10000000000, 100000000, 0,
    100000000, .opened, id⟩ levelTotalQuantity n, .pending, 0⟩

/-- A worker fetches a row, sends it and marks it. -/
def relaying (p : ℕ) (row : OutboxRow OutboxEvent) : List (Event Action) :=
  [⟨p, .relay .processBatch⟩, ⟨p, .relay (.fetchPendingBatch [row])⟩,
    ⟨p, .relay (.sendBatch ⟨[row], true⟩)⟩, ⟨p, .relay .statement⟩, ⟨p, .relay .statement⟩]

/-- Each order is relayed before the next one is placed. -/
def successiveOrders : List (Event Action) :=
  placing 0 "a" ++ [committing 0 "a"] ++ relaying 2 (placedRow "a" 0 1) ++
    placing 1 "b" ++ [committing 1 "b"] ++ relaying 2 (placedRow "b" 100000000 2)

theorem successiveOrders_executes : (eventSystem.exec initial successiveOrders).isSome = true := by
  decide +kernel

theorem sent_in_order_successiveOrders :
    sentSequence ⟨.eth, .usdt⟩ .orders
        ((eventSystem.exec initial successiveOrders).get successiveOrders_executes) = [1, 2] ∧
      (sentSequence ⟨.eth, .usdt⟩ .orders
        ((eventSystem.exec initial successiveOrders).get successiveOrders_executes)).Pairwise
          (· < ·) := by
  refine ⟨by decide +kernel, sent_in_order (.of_transitions (Option.some_get _).symm ?_) .orders⟩
  have hall : (eventSystem.transitions initial successiveOrders).all (fun t =>
      [Topic.orders, .matching].all fun topic => KeepsPairOrder ⟨.eth, .usdt⟩ topic
        t.before.shared (t.before.procs t.event.proc) t.event.action) = true := by decide +kernel
  intro t ht topic
  have hkeeps := List.all_eq_true.1 (List.all_eq_true.1 hall t ht) topic (by cases topic <;> simp)
  exact of_decide_eq_true hkeeps

/-- The second order is committed and relayed before the first is committed. -/
def overtakenOrder : List (Event Action) :=
  placing 0 "a" ++ placing 1 "b" ++ [committing 1 "b"] ++ relaying 2 (placedRow "b" 100000000 2) ++
    [committing 0 "a"] ++ relaying 2 (placedRow "a" 0 1)

theorem overtakenOrder_executes : (eventSystem.exec initial overtakenOrder).isSome = true := by
  decide +kernel

theorem sent_out_of_order_overtakenOrder : ¬∀ pair es d, eventSystem.exec initial es = some d →
    ∀ topic, (sentSequence pair topic d).Pairwise (· < ·) := by
  intro h
  have hsent : sentSequence ⟨.eth, .usdt⟩ .orders
      ((eventSystem.exec initial overtakenOrder).get overtakenOrder_executes) = [2, 1] := by
    decide +kernel
  have hpairwise := h ⟨.eth, .usdt⟩ _ _ (Option.some_get overtakenOrder_executes).symm .orders
  rw [hsent] at hpairwise
  exact absurd hpairwise (by decide)

end EtherTrade.OrderEventOrderLaws
