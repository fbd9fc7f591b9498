import EtherTrade.AccountsBalanceLaws

/-!
# Keys and events take effect once

Over every interleaving: the calls that share an idempotency key change the database at
most once between them, and the deliveries of one event settle it at most once.
-/

namespace EtherTrade.AccountsExactlyOnce

open KeyedRows AccountsSchema PostedJournals AccountsDbInvariants
open BalanceMutations BalanceMutationCorrectness TradeSettlement TradeSettlementCorrectness
open AccountsDbHistory InterleavedProcesses AccountsTransactions
open AccountsTransactionInvariants AccountsTransactionRuns AccountsBalanceLaws

variable {c d : AccountsConfig} {e : Event Action} {es : List (Event Action)} {db : AccountsDb}
  {s : Shared} {l l' : Process}

abbrev AccountsTransition := System.Transition Shared Process Action

/-- Runs without any condition. -/
abbrev AnyRun (es : List (Event Action)) (d : AccountsConfig) : Prop :=
  accountsSystem.exec initial es = some d

theorem anyRun_guarded (h : AnyRun es d) : AccountsRun (fun _ => True) (fun _ _ => True) es d :=
  .of_transitions h fun _ _ => ⟨fun _ _ _ _ _ => trivial, fun _ _ _ _ _ _ => trivial⟩

theorem accountsInvariant_run (h : AnyRun es d) : AccountsInvariant (fun _ => True) d :=
  (anyRun_guarded h).invariant accountsInvariant_initial fun _ _ _ hc hguard hnext =>
    accountsInvariant_next hc hguard.1 hnext

/-- Each transition of a run has one of the effects, from a database within its schema. -/
theorem effect_transition (h : AnyRun es d) {t : AccountsTransition}
    (ht : t ∈ accountsSystem.transitions initial es) :
    AccountsInvariant (fun _ => True) t.before ∧
      Effect (fun _ => True) t.before.shared (t.before.procs t.event.proc)
        (t.after.procs t.event.proc) t.after.shared.store := by
  obtain ⟨hinv, hguard, hnext⟩ := (anyRun_guarded h).transitions_invariant accountsInvariant_initial
    (fun _ _ _ hc hguard hnext => accountsInvariant_next hc hguard.1 hnext) t ht
  exact ⟨hinv, effect_next hinv hguard.1 hnext⟩

/-! ### Balance calls -/

/-- The transition is a step of a call with this key, and it changes the database. -/
def changesByKey (key : String) (t : AccountsTransition) : Bool :=
  match t.before.procs t.event.proc with
  | .calling _ params _ =>
    params.idempotencyKey = key && t.after.shared.store ≠ t.before.shared.store
  | _ => false

def KeyUsed (key : String) (c : AccountsConfig) : Prop :=
  (c.shared.store.findLedgerByIdempotencyKey key).isSome = true

/-- A key comes into use by the one step of a call that changes the database. -/
theorem keyUsed_next (hc : AccountsInvariant (fun _ => True) c)
    (h : accountsSystem.next c e = some d) (key : String) :
    (KeyUsed key c → KeyUsed key d) ∧
      (changesByKey key ⟨c, e, d⟩ = true ↔ ¬KeyUsed key c ∧ KeyUsed key d) := by
  have heffect := effect_next hc (fun _ _ _ _ _ => trivial) h
  unfold KeyUsed changesByKey
  dsimp only
  generalize c.procs e.proc = before at heffect
  generalize d.procs e.proc = after at heffect
  generalize d.shared.store = store at heffect
  cases heffect with
  | unchanged =>
    refine ⟨id, ?_⟩
    cases before <;> simp
  | opened => exact ⟨id, by simp [AccountsDb.findLedgerByIdempotencyKey, AccountsDb.insertAccount]⟩
  | @mutated op params account opened prepared hkey hprepared =>
    have hne : op.mutation.commit params account prepared ≠ c.shared.store := by
      intro heq
      have hlength := congrArg (fun db => db.ledgerTransactions.length) heq
      simp [BalanceMutation.commit, AccountsDb.insertLedgerTransactions, AccountsDb.install,
        hprepared.ledgerTransactions_eq] at hlength
    rw [findLedger_commit, hprepared.findLedger_eq]
    by_cases hk : params.idempotencyKey = key
    · subst hk
      simp [hkey, hne]
    · simp [hk]
  | settled _ hs =>
    obtain ⟨f, -, -, heq⟩ := hs.commit_eq hc.wellFormed
    rw [heq, findLedger_settledDb]
    exact ⟨id, by simp⟩

/-- Once a call has its result it does nothing more. -/
theorem returned_final {op : BalanceOperation} {params : BalanceParams}
    {result : BalanceMutationResult} (p : ℕ) (s : Shared) (action : Action) :
    accountsSystem.step p s (.calling op params (.returned result)) action = none := by
  cases action <;> rfl

theorem settling_persists {envelope : DomainEventEnvelope} {trade : TradeExecutedEvent} {p : ℕ}
    (h : accountsSystem.exec c es = some d)
    (hc : ∃ progress, c.procs p = .settling envelope trade progress) :
    ∃ progress, d.procs p = .settling envelope trade progress := by
  refine System.exec_invariant
    (I := fun c => ∃ progress, c.procs p = .settling envelope trade progress) h hc ?_
  intro c e d hc hnext
  refine System.next_proc (L := fun l => ∃ progress, l = .settling envelope trade progress) hnext
    hc fun s a s' l' hstep => ?_
  obtain ⟨progress, hproc⟩ := hc
  change step p s (c.procs p) a = some (s', l') at hstep
  rw [hproc] at hstep
  simp only [step, Option.map_eq_some_iff, Prod.mk.injEq] at hstep
  obtain ⟨r, -, -, rfl⟩ := hstep
  exact ⟨r.2, rfl⟩

/-- A call that has changed the database has returned success. -/
theorem unchanged_of_not_ok (h : AnyRun es d) {p : ℕ} {op : BalanceOperation}
    {params : BalanceParams} {progress : CallProgress}
    (hproc : d.procs p = .calling op params progress)
    (hresult : ∀ account, progress ≠ .returned (.ok account)) {t : AccountsTransition}
    (ht : t ∈ accountsSystem.transitions initial es) (hp : t.event.proc = p) :
    t.after.shared.store = t.before.shared.store := by
  obtain ⟨-, heffect⟩ := effect_transition h ht
  obtain ⟨earlier, later, -, -, -, hlater⟩ := System.exec_transition h ht
  subst hp
  generalize hbefore : t.before.procs t.event.proc = before at heffect
  generalize hafter : t.after.procs t.event.proc = after at heffect
  generalize t.after.shared.store = store at heffect
  cases heffect with
  | unchanged => rfl
  | opened =>
    obtain ⟨progress', hsettling⟩ := settling_persists hlater ⟨_, hafter⟩
    rw [hproc] at hsettling
    cases hsettling
  | mutated =>
    have hfinal := System.exec_procs_of_final hlater (p := t.event.proc) fun s a => by
      rw [hafter]
      exact returned_final _ _ _
    rw [hproc, hafter] at hfinal
    cases hfinal
    exact absurd rfl (hresult _)
  | settled =>
    obtain ⟨progress', hsettling⟩ := settling_persists hlater ⟨_, hafter⟩
    rw [hproc] at hsettling
    cases hsettling

/-- At-most-once balance mutations. Of all the steps of all the calls with one idempotency
key, at most one changes the database at all; that one writes one ledger row, under the
key, and leaves every other account alone. A call that does not return success, such as
one whose replay check reports a mismatch, never changes the database. -/
theorem mutations_at_most_once (h : AnyRun es d) (key : String) :
    ((accountsSystem.transitions initial es).filter (changesByKey key)).length ≤ 1 ∧
    (∀ t ∈ accountsSystem.transitions initial es, changesByKey key t = true → ∃ row,
      t.after.shared.store.ledgerTransactions = t.before.shared.store.ledgerTransactions ++ [row] ∧
        row.idempotencyKey = some key ∧
        ∀ id account, id ≠ row.accountId → t.before.shared.store.findById id = some account →
          t.after.shared.store.findById id = some account) ∧
    ∀ p op params progress, d.procs p = .calling op params progress →
      (∀ account, progress ≠ .returned (.ok account)) →
        ∀ t ∈ accountsSystem.transitions initial es, t.event.proc = p →
          t.after.shared.store = t.before.shared.store := by
  refine ⟨?_, ?_, ?_⟩
  · have hrun := anyRun_guarded h
    have hcount := hrun.length_filter_transitions (P := changesByKey key) (φ := KeyUsed key)
      accountsInvariant_initial (fun _ _ _ hc hguard hnext => accountsInvariant_next hc hguard.1 hnext)
      fun _ _ _ hc _ hnext => keyUsed_next hc hnext key
    by_cases hd : KeyUsed key d
    · exact (hcount.2.2 (by simp [KeyUsed, initial, AccountsDb.empty,
        AccountsDb.findLedgerByIdempotencyKey, lookup]) hd).le
    · exact (hcount.2.1 (Or.inr hd)).le.trans (Nat.zero_le 1)
  · intro t ht hchanges
    obtain ⟨hinv, heffect⟩ := effect_transition h ht
    unfold changesByKey at hchanges
    generalize t.before.procs t.event.proc = before at heffect hchanges
    generalize t.after.procs t.event.proc = after at heffect
    generalize t.after.shared.store = store at heffect hchanges
    cases heffect with
    | unchanged => cases before <;> simp at hchanges
    | opened => simp at hchanges
    | settled => simp at hchanges
    | @mutated op params account opened prepared hkey hprepared =>
      simp only [ne_eq, Bool.and_eq_true, decide_eq_true_eq] at hchanges
      refine ⟨_, by rw [← hprepared.ledgerTransactions_eq]; rfl, congrArg some hchanges.1, ?_⟩
      intro id a hid ha
      have hprep : prepared.findById id = some a := by
        cases hprepared with
        | found => exact ha
        | opened => exact findById_insertAccount_of_some ha
      have hid' : id ≠ account.id := hid
      have hne : id ∉ [leg op.mutation params account].map Prod.fst := by simpa [leg] using hid'
      rw [commit_eq (hprepared.wellFormed hinv.wellFormed) (hprepared.findById hinv.wellFormed),
        findById_insertLedgerTransactions, findById_adjust, hprep, Option.map_some, findById_id hprep,
        totalChange_of_notMem hne, Account.add_zero]
  · intro p op params progress hproc hresult t ht hp
    exact unchanged_of_not_ok h hproc hresult ht hp

theorem mutations_at_most_once_fundedTrade :
    ((accountsSystem.transitions initial fundedTrade).filter (changesByKey "lock:1")).length ≤ 1 :=
  (mutations_at_most_once (Option.some_get fundedTrade_executes).symm "lock:1").1

/-! ### Settlement deliveries -/

/-- The transition is a step of a delivery of this event, and it records the event. -/
def settlesEvent (eventId : Uuid) (t : AccountsTransition) : Bool :=
  match t.before.procs t.event.proc with
  | .settling envelope _ _ => envelope.eventId = eventId &&
      t.after.shared.store.processedEvents ≠ t.before.shared.store.processedEvents
  | _ => false

def EventProcessed (eventId : Uuid) (c : AccountsConfig) : Prop :=
  c.shared.store.isEventProcessed eventId = true

/-- An event comes to be processed by the one step of a delivery that records it. -/
theorem eventProcessed_next (hc : AccountsInvariant (fun _ => True) c)
    (h : accountsSystem.next c e = some d) (eventId : Uuid) :
    (EventProcessed eventId c → EventProcessed eventId d) ∧
      (settlesEvent eventId ⟨c, e, d⟩ = true ↔
        ¬EventProcessed eventId c ∧ EventProcessed eventId d) := by
  have heffect := effect_next hc (fun _ _ _ _ _ => trivial) h
  unfold EventProcessed settlesEvent
  dsimp only
  generalize c.procs e.proc = before at heffect
  generalize d.procs e.proc = after at heffect
  generalize d.shared.store = store at heffect
  cases heffect with
  | unchanged =>
    refine ⟨id, ?_⟩
    cases before <;> simp
  | opened =>
    exact ⟨id, by simp [AccountsDb.insertAccount, AccountsDb.isEventProcessed,
      AccountsDb.findProcessedEvent]⟩
  | mutated _ hprepared =>
    have hsame := hprepared.processedEvents_eq
    constructor <;>
      simp [BalanceMutation.commit, AccountsDb.insertLedgerTransactions, AccountsDb.install,
        AccountsDb.isEventProcessed, AccountsDb.findProcessedEvent, hsame]
  | @settled envelope trade ids writes _ hs =>
    obtain ⟨f, -, -, heq⟩ := hs.commit_eq hc.wellFormed
    have hne : (settledDb envelope trade ids f c.shared.store).processedEvents ≠
        c.shared.store.processedEvents := by
      intro heq
      have hlength := congrArg List.length heq
      simp [settledDb, AccountsDb.markEventProcessed, AccountsDb.insertLedgerTransactions,
        AccountsDb.adjust] at hlength
    have hnew : c.shared.store.isEventProcessed envelope.eventId = false := by
      simp [AccountsDb.isEventProcessed, hs.unprocessed]
    rw [heq, isEventProcessed_settledDb]
    by_cases he : envelope.eventId = eventId
    · subst he
      simp [hne, hnew]
    · simp [he]

/-- A delivery that settles nothing opens at most an account of its trade, with zero
balances. -/
def OpensAtMost (trade : TradeExecutedEvent) (db db' : AccountsDb) : Prop :=
  db' = db ∨ ∃ account q, account.balances = 0 ∧ account.owner = trade.owner q ∧
    db.findByUserAndCurrency account.userId account.currency = none ∧
    db.findById account.id = none ∧ db' = db.insertAccount account

/-- The whole effect of a settlement: its four legs, its four ledger rows and its row of
`processed_events`. -/
def SettlesAll (envelope : DomainEventEnvelope) (trade : TradeExecutedEvent)
    (db db' : AccountsDb) : Prop :=
  db.isEventProcessed envelope.eventId = false ∧ ∃ ids f, Owned trade ids db ∧
    figures (calculateSettlementAmounts trade) = some f ∧
    db' = settledDb envelope trade ids f db

theorem settles_or_opens (hc : AccountsInvariant (fun _ => True) c)
    (h : accountsSystem.next c e = some d) {envelope : DomainEventEnvelope}
    {trade : TradeExecutedEvent} {progress : SettlementProgress}
    (hproc : c.procs e.proc = .settling envelope trade progress) :
    (settlesEvent envelope.eventId ⟨c, e, d⟩ = true ∧
      SettlesAll envelope trade c.shared.store d.shared.store) ∨
    (settlesEvent envelope.eventId ⟨c, e, d⟩ = false ∧
      OpensAtMost trade c.shared.store d.shared.store) := by
  have heffect := effect_next hc (fun _ _ _ _ _ => trivial) h
  have hiff := (eventProcessed_next hc h envelope.eventId).2
  unfold EventProcessed at hiff
  rw [hproc] at heffect
  generalize settlesEvent envelope.eventId ⟨c, e, d⟩ = settles at hiff ⊢
  generalize d.procs e.proc = after at heffect
  generalize d.shared.store = store at heffect hiff ⊢
  cases heffect with
  | unchanged =>
    refine Or.inr ⟨?_, Or.inl rfl⟩
    simpa using hiff
  | @opened _ _ _ _ q account hzero howner hid hmissing =>
    refine Or.inr ⟨?_, Or.inr ⟨account, q, hzero, howner, hmissing, hid, rfl⟩⟩
    have hsame : (c.shared.store.insertAccount account).isEventProcessed envelope.eventId =
        c.shared.store.isEventProcessed envelope.eventId := rfl
    rw [hsame] at hiff
    simpa using hiff
  | settled _ hs =>
    obtain ⟨f, hf, -, heq⟩ := hs.commit_eq hc.wellFormed
    have hnew : c.shared.store.isEventProcessed envelope.eventId = false := by
      simp [AccountsDb.isEventProcessed, hs.unprocessed]
    rw [heq, isEventProcessed_settledDb] at hiff
    exact Or.inl ⟨hiff.mpr (by simp [hnew]), hnew, _, f, hs.owned, hf, heq⟩

/-- Settlement takes effect exactly once. In every run an event that is processed at the
end was settled by exactly one step, an event that is not by none. The step of a delivery
that settles its event commits the four legs, the four ledger rows and the processed row
together, and every other step of a delivery changes no balance, ledger row or processed
row. Once a delivery of a message has settled it, no delivery of it changes anything. -/
theorem settlement_exactly_once (h : AnyRun es d) :
    (∀ eventId, ((accountsSystem.transitions initial es).filter (settlesEvent eventId)).length =
      if d.shared.store.isEventProcessed eventId then 1 else 0) ∧
    (∀ t ∈ accountsSystem.transitions initial es, ∀ envelope trade progress,
      t.before.procs t.event.proc = .settling envelope trade progress →
        (settlesEvent envelope.eventId t = true ∧
          SettlesAll envelope trade t.before.shared.store t.after.shared.store) ∨
        (settlesEvent envelope.eventId t = false ∧
          OpensAtMost trade t.before.shared.store t.after.shared.store)) ∧
    ∀ q envelope trade, d.procs q = .settling envelope trade (.done .settled) →
      ∀ e d' progress, d.procs e.proc = .settling envelope trade progress →
        accountsSystem.next d e = some d' → d'.shared.store = d.shared.store := by
  have hinv := accountsInvariant_run h
  refine ⟨?_, ?_, ?_⟩
  · intro eventId
    have hcount := (anyRun_guarded h).length_filter_transitions (P := settlesEvent eventId)
      (φ := EventProcessed eventId) accountsInvariant_initial
      (fun _ _ _ hc hguard hnext => accountsInvariant_next hc hguard.1 hnext)
      fun _ _ _ hc _ hnext => eventProcessed_next hc hnext eventId
    split
    · next hprocessed =>
      exact hcount.2.2 (by simp [EventProcessed, initial, AccountsDb.empty,
        AccountsDb.isEventProcessed, AccountsDb.findProcessedEvent, lookup]) hprocessed
    · next hunprocessed => exact hcount.2.1 (Or.inr hunprocessed)
  · intro t ht envelope trade progress hproc
    obtain ⟨hbefore, hguard, hnext⟩ := (anyRun_guarded h).transitions_invariant
      accountsInvariant_initial
      (fun _ _ _ hc hguard hnext => accountsInvariant_next hc hguard.1 hnext) t ht
    exact settles_or_opens hbefore hnext hproc
  · intro q envelope trade hq e d' progress hproc hnext
    obtain ⟨-, -, ⟨ids, howned⟩, hprocessed⟩ :
        ProcessInvariant (fun _ => True) q d.shared (.settling envelope trade (.done .settled)) :=
      hq ▸ hinv.processes q
    rcases settles_or_opens hinv hnext hproc with ⟨-, hnew, -⟩ | ⟨-, hsame | hopens⟩
    · rw [hprocessed] at hnew
      cases hnew
    · exact hsame
    · obtain ⟨account, q', -, howner, hmissing, -⟩ := hopens
      obtain ⟨a, ha, ho⟩ := howned q'
      have hfound := hinv.wellFormed.findByUserAndCurrency_of_id ha
      obtain ⟨hu, hcurrency⟩ := Prod.mk.inj (ho.trans howner.symm)
      rw [hu, hcurrency, hmissing] at hfound
      cases hfound

/-- The trade is delivered a second time after it has been settled. -/
def repeatedTrade : List (Event Action) :=
  fundedTrade ++ delivery 5 ethTradeMessage [] 3

theorem repeatedTrade_executes : (accountsSystem.exec initial repeatedTrade).isSome = true := by
  decide +kernel

theorem settlement_exactly_once_repeatedTrade :
    ((accountsSystem.transitions initial repeatedTrade).filter (settlesEvent "event")).length =
      if ((accountsSystem.exec initial repeatedTrade).get
        repeatedTrade_executes).shared.store.isEventProcessed "event" then 1 else 0 :=
  (settlement_exactly_once (Option.some_get repeatedTrade_executes).symm).1 "event"

end EtherTrade.AccountsExactlyOnce
