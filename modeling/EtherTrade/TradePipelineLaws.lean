import EtherTrade.OrderNotificationLaws
import EtherTrade.TradePipeline

/-!
# What is settled was traded

Every settlement that the accounts database holds is that of a trade which the orders service
has committed, with the amounts that follow from its price and quantity, and no trade is
settled twice. This is so while rows of `processed_events` are retained: no process deletes
them here, as the retention service does after thirty days.
-/

namespace EtherTrade.TradePipelineLaws

open KeyedRows AccountsSchema AccountsDbInvariants InterleavedProcesses OutboxRelay
open OutboxOrderLaws CoupledSystems TradePipeline
open BridgedOutbox (Recorded)
open OrderNotifications (ordersService notifyingSystem)
open OrdersSchema (OutboxEvent)
open OrderReservations (settledTrade)
open TradeSettlement (Participant DomainEventEnvelope KafkaBatchConsumerPayload acceptMessage)
open TradeSettlementCorrectness (figures Figures legOrder entry settledDb)
open AccountsTransactions (AccountsConfig accountsSystem)
open AccountsTransactionRuns (AccountsInvariant Effect effect_next accountsInvariant_next)

variable {envelopeId : Uuid → Uuid} {c d : PipelineConfig} {es : List (Event PipelineAction)}
  {rows : List (OutboxRow OutboxEvent)} {db db' : AccountsDb}
  {envelope : DomainEventEnvelope} {trade : TradeSettlement.TradeExecutedEvent}

/-! ### What a settlement writes in the ledger -/

/-- What a row of the ledger says of a user's balance in a currency. -/
structure Leg where
  userId : Uuid
  currency : Currency
  amount : ℤ
  change : Balances
  referenceId : Option String
  deriving DecidableEq

def legOf (t : LedgerTransaction) : Leg :=
  ⟨t.userId, t.currency, t.amount, (t.availableDelta, t.lockedDelta), t.referenceId⟩

/-- The legs of all settlements, in their order. -/
def settlementLegs (db : AccountsDb) : List Leg :=
  (db.ledgerTransactions.filter fun t => t.type = .tradeSettlement).map legOf

/-- The four legs of a trade, by its own values; none when they cannot be computed. -/
def legsOf (trade : TradeSettlement.TradeExecutedEvent) : List Leg :=
  match figures (TradeSettlement.calculateSettlementAmounts trade) with
  | none => []
  | some f => legOrder.map fun p =>
      ⟨(trade.owner p).1, (trade.owner p).2, f.amount p, f.change p, some trade.tradeId⟩

theorem settlementLegs_insertAccount (a : Account) :
    settlementLegs (db.insertAccount a) = settlementLegs db := rfl

theorem settlementLegs_settledDb {ids : Participant → Uuid} {f : Figures}
    (hf : figures (TradeSettlement.calculateSettlementAmounts trade) = some f) :
    settlementLegs (settledDb envelope trade ids f db) = settlementLegs db ++ legsOf trade := by
  simp only [settlementLegs, settledDb, AccountsDb.markEventProcessed,
    AccountsDb.insertLedgerTransactions, AccountsDb.adjust, List.filter_append, List.map_append,
    legsOf, hf]
  congr 1

theorem settlementLegs_commit {op : BalanceMutations.BalanceOperation}
    {params : BalanceMutations.BalanceParams} {account : Account} {prepared : AccountsDb}
    (hprepared : BalanceMutationCorrectness.Prepared op.mutation params db account prepared) :
    settlementLegs (op.mutation.commit params account prepared) = settlementLegs db := by
  have htype : op.mutation.expectedType ≠ .tradeSettlement := by cases op <;> decide
  have hsame : settlementLegs prepared = settlementLegs db := by cases hprepared <;> rfl
  rw [← hsame]
  simp [settlementLegs, BalanceMutations.BalanceMutation.commit, AccountsDb.install,
    AccountsDb.insertLedgerTransactions, BalanceMutations.BalanceMutation.ledgerTransaction, htype]

/-! ### Deliveries carry committed trades -/

/-- The envelope and the trade are those of a row. -/
def Carried (envelopeId : Uuid → Uuid) (rows : List (OutboxRow OutboxEvent))
    (envelope : DomainEventEnvelope) (trade : TradeSettlement.TradeExecutedEvent) : Prop :=
  ∃ row ∈ rows, ∃ e, row.event.trade = some e ∧ trade = settledTrade e ∧
    envelope.eventId = envelopeId row.id

theorem Carried.mono {more : List (OutboxRow OutboxEvent)}
    (h : Carried envelopeId rows envelope trade) (hsub : rows ⊆ more) :
    Carried envelopeId more envelope trade := by
  obtain ⟨row, hrow, hcarried⟩ := h
  exact ⟨row, hsub hrow, hcarried⟩

theorem carried_acceptMessage {row : OutboxRow OutboxEvent} {offset actionHeader : String}
    {payload : KafkaBatchConsumerPayload} (hrow : row ∈ rows)
    (hmessage : settlementMessage envelopeId row offset actionHeader = some payload)
    (haccept : acceptMessage payload = .inr (envelope, trade)) :
    Carried envelopeId rows envelope trade := by
  obtain ⟨e, he, rfl⟩ := Option.map_eq_some_iff.mp hmessage
  simp only [acceptMessage] at haccept
  split at haccept
  · cases haccept
  · split at haccept
    · cases haccept
    · split at haccept
      · cases haccept
      · cases haccept
        exact ⟨row, hrow, e, he, rfl, rfl⟩

/-- A process handles a message that it handled before, or has just taken. -/
theorem settling_of_step {p : ℕ} {s s' : AccountsTransactions.Shared}
    {l : AccountsTransactions.Process} {action : AccountsTransactions.Action}
    {progress : AccountsTransactions.SettlementProgress}
    (h : accountsSystem.step p s l action = some (s', .settling envelope trade progress)) :
    (∃ before, l = .settling envelope trade before) ∨
      ∃ payload, action = .deliver payload ∧ acceptMessage payload = .inr (envelope, trade) := by
  change AccountsTransactions.step p s l action = _ at h
  unfold AccountsTransactions.step at h
  split at h
  · cases h
  · next payload =>
    split at h
    · cases h
    · next haccept =>
      cases h
      exact Or.inr ⟨payload, rfl, haccept⟩
  · obtain ⟨r, -, heq⟩ := Option.map_eq_some_iff.mp h
    cases heq
  · obtain ⟨r, -, heq⟩ := Option.map_eq_some_iff.mp h
    cases heq
    exact Or.inl ⟨_, rfl⟩
  · cases h

/-! ### What has been settled -/

/-- The settlements of a database, each with the row of its event. -/
structure Settles (envelopeId : Uuid → Uuid) (rows : List (OutboxRow OutboxEvent)) (db : AccountsDb)
    (settled : List (OutboxRow OutboxEvent × OrdersSchema.TradeExecutedEvent)) : Prop where
  rows : ∀ x ∈ settled, x.1 ∈ rows ∧ x.1.event.trade = some x.2
  events : db.processedEvents.map ProcessedEvent.eventId =
    settled.map fun x => envelopeId x.1.id
  legs : settlementLegs db = settled.flatMap fun x => legsOf (settledTrade x.2)
  computed : ∀ x ∈ settled,
    (figures (TradeSettlement.calculateSettlementAmounts (settledTrade x.2))).isSome

variable {settled : List (OutboxRow OutboxEvent × OrdersSchema.TradeExecutedEvent)}

theorem Settles.mono {more : List (OutboxRow OutboxEvent)} (h : Settles envelopeId rows db settled)
    (hsub : rows ⊆ more) : Settles envelopeId more db settled :=
  ⟨fun x hx => (h.rows x hx).imp_left (hsub ·), h.events, h.legs, h.computed⟩

theorem Settles.of_eq (h : Settles envelopeId rows db settled)
    (hevents : db'.processedEvents = db.processedEvents)
    (hlegs : settlementLegs db' = settlementLegs db) : Settles envelopeId rows db' settled :=
  ⟨h.rows, hevents ▸ h.events, hlegs ▸ h.legs, h.computed⟩

/-- A settlement adds its own trade. -/
theorem Settles.settledDb (h : Settles envelopeId rows db settled)
    (hcarried : Carried envelopeId rows envelope trade) {ids : Participant → Uuid} {f : Figures}
    (hf : figures (TradeSettlement.calculateSettlementAmounts trade) = some f) :
    ∃ x, Settles envelopeId rows (settledDb envelope trade ids f db) (settled ++ [x]) := by
  obtain ⟨row, hrow, e, he, rfl, henvelope⟩ := hcarried
  refine ⟨(row, e), fun x hx => ?_, ?_, ?_, fun x hx => ?_⟩
  · rcases List.mem_append.mp hx with hold | hnew
    · exact h.rows x hold
    · obtain rfl := List.mem_singleton.mp hnew
      exact ⟨hrow, he⟩
  · change (db.processedEvents ++ [TradeSettlement.processedEvent envelope]).map _ = _
    rw [List.map_append, List.map_append, h.events]
    exact congrArg (List.append _) (congrArg (fun id => [id]) henvelope)
  · rw [settlementLegs_settledDb hf, h.legs, List.flatMap_append, List.flatMap_singleton]
  · rcases List.mem_append.mp hx with hold | hnew
    · exact h.computed x hold
    · obtain rfl := List.mem_singleton.mp hnew
      rw [hf]
      rfl

/-- The accounts service behind the rows that were inserted. -/
structure Connected (envelopeId : Uuid → Uuid) (rows : List (OutboxRow OutboxEvent))
    (c : AccountsConfig) : Prop where
  accounts : AccountsInvariant (fun _ => True) c
  deliveries : ∀ p envelope trade progress, c.procs p = .settling envelope trade progress →
    Carried envelopeId rows envelope trade
  settles : ∃ settled, Settles envelopeId rows c.shared.store settled

theorem Connected.mono {more : List (OutboxRow OutboxEvent)} {a : AccountsConfig}
    (h : Connected envelopeId rows a) (hsub : rows ⊆ more) : Connected envelopeId more a := by
  obtain ⟨settled, hsettled⟩ := h.settles
  exact ⟨h.accounts, fun p envelope trade progress hproc =>
    (h.deliveries p envelope trade progress hproc).mono hsub, settled, hsettled.mono hsub⟩

/-- A step of the accounts service keeps it connected, when it takes messages of rows. -/
theorem Connected.next {a b : AccountsConfig} {e : Event AccountsTransactions.Action}
    (h : Connected envelopeId rows a)
    (hdeliver : ∀ payload envelope trade, e.action = .deliver payload →
      acceptMessage payload = .inr (envelope, trade) → Carried envelopeId rows envelope trade)
    (hnext : accountsSystem.next a e = some b) : Connected envelopeId rows b := by
  have haccounts := accountsInvariant_next h.accounts (fun _ _ _ _ _ => trivial) hnext
  refine ⟨haccounts, fun p envelope trade progress hproc => ?_, ?_⟩
  · by_cases hp : p = e.proc
    · subst hp
      obtain ⟨s, l, hstep, rfl⟩ := System.next_eq_some.mp hnext
      dsimp only at hproc
      rw [Function.update_self] at hproc
      subst hproc
      rcases settling_of_step hstep with ⟨before, hbefore⟩ | ⟨payload, haction, haccept⟩
      · exact h.deliveries _ _ _ _ hbefore
      · exact hdeliver payload envelope trade haction haccept
    · exact h.deliveries p envelope trade progress
        ((System.next_procs_of_ne hnext hp).symm.trans hproc)
  · obtain ⟨settled, hsettled⟩ := h.settles
    have heffect := effect_next h.accounts (fun _ _ _ _ _ => trivial) hnext
    have hdeliveries := h.deliveries e.proc
    generalize a.procs e.proc = before at heffect hdeliveries
    generalize b.procs e.proc = after at heffect
    generalize b.shared.store = store at heffect
    cases heffect with
    | unchanged => exact ⟨settled, hsettled⟩
    | opened => exact ⟨settled, hsettled.of_eq rfl (settlementLegs_insertAccount _)⟩
    | mutated hkey hprepared =>
      exact ⟨settled, hsettled.of_eq hprepared.processedEvents_eq
        (settlementLegs_commit hprepared)⟩
    | settled _ hs =>
      obtain ⟨f, hf, -, heq⟩ := hs.commit_eq h.accounts.wellFormed
      rw [heq]
      obtain ⟨x, hx⟩ := hsettled.settledDb (hdeliveries _ _ _ rfl) hf
      exact ⟨_, hx⟩

/-! ### Runs of the pipeline -/

theorem inserted_next {a b : OrderNotifications.NotifyingConfig}
    {e : Event OrderNotifications.NotifyingAction} (h : notifyingSystem.next a e = some b) :
    a.shared.inserted ⊆ b.shared.inserted := by
  obtain ⟨s', l', hstep, rfl⟩ := BridgedOutbox.next_cases h
  generalize a.procs e.proc = l at hstep
  generalize e.action = action at hstep
  cases hstep with
  | served => exact List.subset_append_left _ _
  | relayed => exact List.Subset.refl _
  | handled => exact List.Subset.refl _

/-- A message that is fed to the consumers carries a row. -/
theorem carried_of_feed {a : OrderNotifications.NotifyingConfig} {request : Request}
    {payload : KafkaBatchConsumerPayload} (ha : Recorded ordersService a)
    (hfeed : feed envelopeId a.shared request = some (.deliver payload))
    (haccept : acceptMessage payload = .inr (envelope, trade)) :
    Carried envelopeId a.shared.inserted envelope trade := by
  cases request with
  | serve action =>
    cases action with
    | deliver payload => cases hfeed
    | _ => cases hfeed
  | deliver row offset actionHeader =>
    rw [feed] at hfeed
    split at hfeed
    · next hrow =>
      obtain ⟨payload', hmessage, heq⟩ := Option.map_eq_some_iff.mp hfeed
      cases heq
      exact carried_acceptMessage (ha.carries.arrived row hrow) hmessage haccept
    · cases hfeed

theorem connected_exec (h : (coupledSystem (pipeline envelopeId)).exec initial es = some c) :
    Recorded ordersService (firstConfig c) ∧
      Connected envelopeId (firstConfig c).shared.inserted (secondConfig c) := by
  refine exec_invariant (I := Recorded ordersService)
    (J := fun a b => Connected envelopeId a.shared.inserted b) h
    (BridgedOutbox.recorded_initial rfl) ?_ (fun a e b accounts ha hb hnext => ?_)
    fun a p request action b b' ha hb hfeed hnext => ?_
  · exact ⟨AccountsTransactionRuns.accountsInvariant_initial, fun p envelope trade progress hproc =>
      (nomatch hproc), [], fun x hx => absurd hx List.not_mem_nil, rfl, rfl,
        fun x hx => absurd hx List.not_mem_nil⟩
  · exact ⟨ha.next hnext, hb.mono (inserted_next hnext)⟩
  · refine hb.next (fun payload envelope trade haction haccept => ?_) hnext
    subst haction
    exact carried_of_feed ha hfeed haccept

/-- The rows of settlements are distinct. -/
theorem Settles.nodup_rows (h : Settles envelopeId rows db settled) (hdb : WellFormed db) :
    (settled.map Prod.fst).Nodup := by
  have hnodup : (settled.map fun x => envelopeId x.1.id).Nodup := h.events ▸ hdb.eventIds
  exact List.Nodup.of_map (fun row : OutboxRow OutboxEvent => envelopeId row.id)
    (by rwa [List.map_map])

/-- Rows that were inserted, without repetition, report some of the trades that were committed,
none more often than it was. -/
theorem Settles.trades_subperm (h : Settles envelopeId rows db settled) (hdb : WellFormed db) :
    (settled.map Prod.snd).Subperm ((rows.map OutboxRow.event).filterMap OutboxEvent.trade) := by
  have hrows : (settled.map Prod.fst).Subperm rows := by
    refine (h.nodup_rows hdb).subperm fun row hrow => ?_
    obtain ⟨x, hx, rfl⟩ := List.mem_map.mp hrow
    exact (h.rows x hx).1
  have htrades : settled.map Prod.snd =
      (settled.map Prod.fst).filterMap fun row => row.event.trade := by
    rw [List.filterMap_map, ← List.filterMap_eq_map]
    exact List.filterMap_congr fun x hx => (h.rows x hx).2.symm
  have hcommitted : (rows.map OutboxRow.event).filterMap OutboxEvent.trade =
      rows.filterMap fun row => row.event.trade := List.filterMap_map
  rw [htrades, hcommitted]
  obtain ⟨sub, hperm, hsub⟩ := hrows
  exact ⟨_, hperm.filterMap _, hsub.filterMap _⟩

/-- In every run the settlements on the ledger are those of trades that the orders service has
committed, each at most once and with its four legs, and nothing else counts as processed. -/
theorem settlements_are_trades
    (h : (coupledSystem (pipeline envelopeId)).exec initial es = some c) :
    ∃ settled : List OrdersSchema.TradeExecutedEvent,
      settled.Subperm c.shared.1.service.store.db.trades ∧
        settlementLegs c.shared.2.store = settled.flatMap (fun e => legsOf (settledTrade e)) ∧
          (∀ e ∈ settled, (legsOf (settledTrade e)).length = 4) ∧
            c.shared.2.store.processedEvents.length = settled.length := by
  obtain ⟨hrecorded, hconnected⟩ := connected_exec h
  obtain ⟨settled, hsettled⟩ := hconnected.settles
  have htrades := hsettled.trades_subperm hconnected.accounts.wellFormed
  rw [hrecorded.events] at htrades
  refine ⟨settled.map Prod.snd, htrades, ?_, fun e he => ?_, ?_⟩
  · rw [List.flatMap_map]
    exact hsettled.legs
  · obtain ⟨x, hx, rfl⟩ := List.mem_map.mp he
    obtain ⟨f, hf⟩ := Option.isSome_iff_exists.mp (hsettled.computed x hx)
    simp only [legsOf, hf]
    rfl
  · have hlength := congrArg List.length hsettled.events
    rwa [List.length_map, List.length_map, ← List.length_map (f := Prod.snd)] at hlength

/-! ### A run -/

/-- A delivery of a row, which opens the accounts of its trade with the ids given. -/
def consuming (p : ℕ) (newIds : List (Participant × Uuid)) (statements : ℕ)
    (row : OutboxRow OutboxEvent) : List (Event PipelineAction) :=
  ⟨p, .second (.deliver row "0" "")⟩ ::
    (AccountsBalanceLaws.delivery p ⟨"0", none, ""⟩ newIds statements).tail.map
      fun e => ⟨e.proc, .second (.serve e.action)⟩

/-- An offer is bought, all events are relayed, and the one of the trade is consumed twice. -/
def consumedTwice : List (Event PipelineAction) :=
  let tradeRow := ((OrderNotificationLaws.buying 200000000).drop 1).take 1
  (OrderNotificationLaws.bought ++ OrderNotificationLaws.relaying 4
      (OrderNotificationLaws.offeredRow :: OrderNotificationLaws.buying 200000000 ++
        [OrderNotificationLaws.offerFilledRow])).map (fun e => ⟨e.proc, .first e.action⟩) ++
    tradeRow.flatMap (consuming 5
      [(.buyerQuote, "q"), (.buyerBase, "r"), (.sellerQuote, "s"), (.sellerBase, "t")] 9) ++
    tradeRow.flatMap (consuming 6 [] 3)

theorem consumedTwice_executes : ((coupledSystem (pipeline id)).exec initial consumedTwice).map
    (fun c => (settlementLegs c.shared.2.store).map Leg.amount) =
      some [20000000000, 200000000, 200000000, 20000000000] := by
  decide +kernel

theorem settlements_are_trades_consumedTwice : ∃ c,
    (coupledSystem (pipeline id)).exec initial consumedTwice = some c ∧
      (settlementLegs c.shared.2.store).length = 4 ∧
      ∃ settled : List OrdersSchema.TradeExecutedEvent,
        settled.Subperm c.shared.1.service.store.db.trades ∧
          settlementLegs c.shared.2.store = settled.flatMap (fun e => legsOf (settledTrade e)) ∧
            (∀ e ∈ settled, (legsOf (settledTrade e)).length = 4) ∧
              c.shared.2.store.processedEvents.length = settled.length := by
  obtain ⟨c, hexec, hamounts⟩ := Option.map_eq_some_iff.mp consumedTwice_executes
  have hlength := congrArg List.length hamounts
  rw [List.length_map] at hlength
  exact ⟨c, hexec, hlength, settlements_are_trades hexec⟩

end EtherTrade.TradePipelineLaws
