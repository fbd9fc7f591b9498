import EtherTrade.DepositCreditLaws
import EtherTrade.TransferNotifications

/-!
# Notifications of credited deposits

The bridge says that a deposit is credited when it sees the event that the deposit is confirmed.
That event commits with the row of the deposit, before the credit is asked for. What the bridge
says is true in exactly the runs in which the credit has been carried out by then.
-/

namespace EtherTrade.DepositNotificationLaws

open KeyedRows AccountsSchema BalanceMutations BalanceMutationCorrectness BalancesService
open SequentialRequests IdempotencyKeyIsolation DepositsSchema DepositTransactions
open DepositTransactionSteps DepositCreditLaws InterleavedProcesses DomainEventEnvelopes
open KafkaToWebSocketBridge TransferNotifications
open BridgedOutbox (Recorded serviceConfig)
open OutboxRelay (OutboxRow)

variable {deployment : Deployment} {settings : Settings} {chain : Chain} {s s' : DepositsStore}
  {l l' : DepositTransactions.Process} {action : DepositTransactions.Action} {newId : Uuid}
  {request : CreditDepositFundsRequest} {db db' : AccountsDb} {t : LedgerTransaction}
  {c d : NotifyingConfig} {e : Event TransferNotifications.Action}
  {es : List (Event TransferNotifications.Action)} {m : PubSubMsg}

/-- A notification that a deposit is credited is true: the ledger has the entry that says what
the row of the deposit says. -/
def CreditedTruly (s : DepositsStore) (m : PubSubMsg) : Prop :=
  m.message.get "channel" = some (.string WsChannels.userTransfers) →
    m.message.get "status" = some (.string "CREDITED") →
      ∃ deposit, Stored s deposit ∧ m.message.get "transferId" = some (.string deposit.id) ∧
        Entered s deposit.toDepositTerms

/-- The condition on a step: an event of a deposit is not handled before the accounts service has
carried out a credit call of its transaction. -/
def CreditedBefore (c : NotifyingConfig) (e : Event TransferNotifications.Action) : Prop :=
  ∀ row context sent event, e.action = .handleMessage row context sent → sent ≠ 0 →
    row.event = .depositConfirmed event →
      ∃ request ∈ c.shared.service.credited, request.idempotencyKey = depositKey event.txHash

theorem CreditedTruly.mono (h : CreditedTruly s m) (hs : Persists s s') : CreditedTruly s' m := by
  intro hchannel hstatus
  obtain ⟨deposit, hstored, hid, hentered⟩ := h hchannel hstatus
  exact ⟨deposit, hs.stored _ hstored, hid, hentered.mono hs⟩

/-! ### Messages -/

/-- The event that a deposit is confirmed makes one message. -/
theorem messages_depositConfirmed (deployment : Deployment) (context : Context)
    {row : OutboxRow TransfersEvent} {event : DepositConfirmedEvent}
    (h : row.event = .depositConfirmed event) :
    ∃ m, (transfersService deployment).messages context row = [m] ∧
      m.message.get "channel" = some (.string WsChannels.userTransfers) ∧
      m.message.get "status" = some (.string "CREDITED") ∧
      m.message.get "transferId" = some (.string event.depositId) := by
  have hmessages : (transfersService deployment).messages context row =
      [⟨getUserPrivateRoom event.userId .transfers, objectOf
        [("channel", some (.string WsChannels.userTransfers)),
          ("transferId", some (.string event.depositId)), ("type", some (.string "deposit")),
          ("currency", some (.string event.currency.code)),
          ("amount", some (amountText event.amount)), ("status", some (.string "CREDITED")),
          ("txHash", some (.string event.txHash)), ("timestamp", some (timestampOf context)),
          ("traceId", context.traceId.map .string)]⟩] := by
    change bridgeMessages _ _ _ _ row.event.domainEvent _ = _
    rw [h]
    rfl
  refine ⟨_, hmessages, ?_⟩
  cases context.traceId <;> exact ⟨rfl, rfl, rfl⟩

theorem status_withdrawal {context : Context} {id : Uuid} {appEnv : String}
    {numberText : JsonValues.JsonNumber → String} {event : WithdrawalsSchema.WithdrawalEvent}
    (hm : m ∈ bridgeMessages appEnv transfersOrigin context id
      (TransfersEvent.withdrawal event).domainEvent numberText) :
    m.message.get "status" = some (.string "COMPLETED") ∨
      m.message.get "status" = some (.string "FAILED") := by
  cases event with
  | completed =>
    obtain rfl := List.mem_singleton.mp hm
    left
    cases context.traceId <;> rfl
  | failed =>
    obtain rfl := List.mem_singleton.mp hm
    right
    cases context.traceId <;> rfl

/-- A notification of a credited deposit is made of the event that the deposit is confirmed. -/
theorem event_of_credited {context : Context} {row : OutboxRow TransfersEvent}
    (hm : m ∈ (transfersService deployment).messages context row)
    (hstatus : m.message.get "status" = some (.string "CREDITED")) :
    ∃ event, row.event = .depositConfirmed event := by
  cases hevent : row.event with
  | depositConfirmed event => exact ⟨event, rfl⟩
  | withdrawal event =>
    change m ∈ bridgeMessages _ _ _ _ row.event.domainEvent _ at hm
    rw [hevent] at hm
    rcases status_withdrawal hm with hcompleted | hfailed
    · simp [hcompleted] at hstatus
    · simp [hfailed] at hstatus

/-! ### Credit calls -/

/-- A call that changes the accounts database succeeds. -/
theorem isOk_of_changed {isValidUuid : String → Bool} {result : Except BalanceFailure Account}
    (h : creditDepositFunds isValidUuid newId request db = (db', result)) (hne : db' ≠ db) :
    result.isOk = true := by
  unfold creditDepositFunds at h
  split at h
  · obtain ⟨rfl, rfl⟩ := Prod.mk.inj h
    exact absurd rfl hne
  · next params hparams =>
    split at h
    · next answer hanswer =>
      obtain ⟨rfl, rfl⟩ := Prod.mk.inj h
      rcases @mutateBalance_cases _ _ _ _ _ .creditDeposit hanswer with
        ⟨rfl, -⟩ | ⟨_, _, -, -, -, hok⟩
      · exact absurd rfl hne
      · obtain rfl := Option.some.inj hok
        rfl
    · next hanswer =>
      obtain ⟨rfl, rfl⟩ := Prod.mk.inj h
      rcases @mutateBalance_cases _ _ _ _ _ .creditDeposit hanswer with
        ⟨rfl, -⟩ | ⟨_, _, -, -, -, hok⟩
      · exact absurd rfl hne
      · cases hok

/-- The credit call that reaches the accounts service with a step asks for the credit of a row. -/
theorem creditCall_spec (h : Books s) (hbacked : Backed settings chain s l)
    (hcall : creditCall s l action = some (request, newId)) :
    ∃ deposit, Stored s deposit ∧ Accepted deposit.toDepositTerms ∧
      request = creditRequest deposit deposit.txHash := by
  unfold creditCall at hcall
  split at hcall
  · obtain ⟨rfl, rfl⟩ := Prod.mk.inj (Option.some.inj hcall)
    obtain ⟨-, ⟨hstored, haccepted, hhash⟩, -⟩ := hbacked
    exact ⟨_, hstored, haccepted, by rw [hhash]⟩
  · split at hcall
    · next hrequest =>
      obtain ⟨rfl, rfl⟩ := Prod.mk.inj (Option.some.inj hcall)
      obtain ⟨deposit, hstored, haccepted, hrequest⟩ := h.inFlight _ hrequest
      exact ⟨deposit, hstored, haccepted, hrequest⟩
    · cases hcall
  · cases hcall

theorem accounts_of_call {p : ℕ} (h : step settings chain p s l action = some (s', l'))
    (hcall : creditCall s l action = some (request, newId)) :
    s'.accounts = (creditDepositFunds settings.isValidUuid newId request s.accounts).1 := by
  unfold creditCall at hcall
  split at hcall
  · obtain ⟨rfl, rfl⟩ := Prod.mk.inj (Option.some.inj hcall)
    simp only [step, processingStep] at h
    split at h <;> next hcredit =>
      cases h
      rw [hcredit]
  · split at hcall
    · next hrequest =>
      obtain ⟨rfl, rfl⟩ := Prod.mk.inj (Option.some.inj hcall)
      simp only [step, idleStep, if_pos hrequest] at h
      cases h
      rfl
    · cases hcall
  · cases hcall

/-- Without a credit call, the accounts database stays or serves another caller. -/
theorem accounts_of_no_call (h : ProcessStep settings chain s l action s' l')
    (hcall : creditCall s l action = none) : s'.accounts = s.accounts ∨
      ∃ request answer, Foreign request ∧
        accountsMachine.step s.accounts request = some (s'.accounts, answer) := by
  cases h with
  | poll hpoll =>
    left
    cases hpoll with
    | planned _ hscan => exact (@scanFrom_spec _ chain _ _ _ _ _ hscan).1
    | reset hscan => exact (@scanFrom_spec _ chain _ _ _ _ _ hscan).1
    | _ => rfl
  | deposit hdeposit =>
    cases hdeposit with
    | credited => cases hcall
    | refused => cases hcall
    | inserted hcreate => exact Or.inl (createDeposit_eq_some hcreate).2.2.1
    | insertedUnheard hcreate => exact Or.inl (createDeposit_eq_some hcreate).2.2.1
    | _ => exact Or.inl rfl
  | arrived hrequest => simp [creditCall, hrequest] at hcall
  | accounts hforeign hstep => exact Or.inr ⟨_, _, hforeign, hstep⟩
  | _ => exact Or.inl rfl

/-- A new credit in the ledger comes from a call that is carried out. -/
theorem carriedOut_of_entry {p : ℕ} (h : Books s) (hbacked : Backed settings chain s l)
    (hstep : step settings chain p s l action = some (s', l'))
    (ht : t ∈ s'.accounts.ledgerTransactions) (hnew : t ∉ s.accounts.ledgerTransactions)
    {key : String} (hkey : t.idempotencyKey = some key) (htype : t.type = .onChainDeposit) :
    ∃ request, carriedOut settings s l action = some request ∧ request.idempotencyKey = key := by
  cases hcall : creditCall s l action with
  | none =>
    rcases accounts_of_no_call (step_cases hstep) hcall with hsame | ⟨_, _, hforeign, haccounts⟩
    · rw [hsame] at ht
      exact absurd ht hnew
    · obtain ⟨-, entries, hledger, hentries⟩ := accountsMachine_ledger h.wellFormed haccounts
      rw [hledger] at ht
      obtain ⟨op, id, params, account, rfl, -, rfl⟩ :=
        hentries t ((List.mem_append.mp ht).resolve_left hnew) key hkey
      obtain rfl : op = .creditDeposit := expectedType_injective htype
      exact absurd rfl hforeign
  | some call =>
    obtain ⟨request, newId⟩ := call
    have haccounts := accounts_of_call hstep hcall
    obtain ⟨deposit, -, haccepted, rfl⟩ := creditCall_spec h hbacked hcall
    generalize hcredit : creditDepositFunds settings.isValidUuid newId
      (creditRequest deposit deposit.txHash) s.accounts = result at haccounts
    have hchanged : result.1 ≠ s.accounts := by
      rintro hsame
      rw [haccounts, hsame] at ht
      exact hnew ht
    refine ⟨creditRequest deposit deposit.txHash, ?_, ?_⟩
    · have hok := @isOk_of_changed _ _ _ _ _ result.2 hcredit hchanged
      rw [carriedOut, hcall, Option.filter_some, hcredit, if_pos hok]
      rfl
    · have hspec := @creditDepositFunds_spec _ _ _ _ _ h.wellFormed haccepted result.2 hcredit
      rcases hspec.ledger with hsame | ⟨entry, hrecords, hledger⟩
      · rw [haccounts, hsame] at ht
        exact absurd ht hnew
      · rw [haccounts, hledger] at ht
        obtain rfl := List.mem_singleton.mp ((List.mem_append.mp ht).resolve_left hnew)
        exact Option.some.inj (hrecords.credits.2.symm.trans hkey)

/-- A call that is carried out leaves its entry in the ledger. -/
theorem entry_of_carriedOut {p : ℕ} (h : Books s) (hbacked : Backed settings chain s l)
    (hstep : step settings chain p s l action = some (s', l'))
    (hcarried : carriedOut settings s l action = some request) :
    ∃ deposit, Stored s deposit ∧ request.idempotencyKey = depositKey deposit.txHash ∧
      Entered s' deposit.toDepositTerms := by
  obtain ⟨⟨_, newId⟩, hfilter, rfl⟩ := Option.map_eq_some_iff.mp hcarried
  obtain ⟨hcall, hok⟩ := Option.filter_eq_some_iff.mp hfilter
  have haccounts := accounts_of_call hstep hcall
  obtain ⟨deposit, hstored, haccepted, rfl⟩ := creditCall_spec h hbacked hcall
  obtain ⟨account, haccount⟩ : ∃ account, (creditDepositFunds settings.isValidUuid newId
      (creditRequest deposit deposit.txHash) s.accounts).2 = .ok account := by
    revert hok
    cases (creditDepositFunds settings.isValidUuid newId
      (creditRequest deposit deposit.txHash) s.accounts).2 with
    | ok account => exact fun _ => ⟨account, rfl⟩
    | error => exact fun hok => by cases hok
  obtain ⟨-, -, hentered⟩ := credit_spec h hstored haccepted (Prod.mk.eta.symm)
  obtain ⟨t, ht, hrecords⟩ := hentered account haccount
  refine ⟨deposit, hstored, rfl, t, ?_, hrecords⟩
  rw [haccounts]
  exact ht

/-! ### Events -/

theorem outbox_createDeposit {deposit : NewWalletDeposit}
    (h : createDeposit s deposit newId = some s') : s'.outbox = s.outbox ∨
      ∃ row ∈ s'.deposits, s'.outbox = s.outbox ++ [confirmedEvent row] := by
  unfold createDeposit at h
  dsimp only at h
  split at h
  · cases h
  · cases h
    dsimp only
    split
    · exact Or.inr ⟨_, List.mem_append_right _ (List.mem_singleton_self _), rfl⟩
    · exact Or.inl rfl

/-- An event is committed with its row. -/
theorem outbox_step (h : ProcessStep settings chain s l action s' l') : s'.outbox = s.outbox ∨
    ∃ row ∈ s'.deposits, s'.outbox = s.outbox ++ [confirmedEvent row] := by
  cases h with
  | poll hpoll =>
    left
    have hscan {store : DepositsStore} {currentBlock fromBlock : ℕ}
        (h : scanFrom settings store currentBlock fromBlock = (s', l')) :
        s'.outbox = store.outbox := by
      rcases scanFrom_cases settings store currentBlock fromBlock with hidle | ⟨_, -, -, hrange⟩
      · rw [← (Prod.mk.inj (hidle.symm.trans h)).1]
      · rw [← (Prod.mk.inj (hrange.symm.trans h)).1]
    cases hpoll with
    | planned _ h => exact hscan h
    | reset h => exact (hscan h).trans rfl
    | _ => rfl
  | deposit hdeposit =>
    cases hdeposit with
    | inserted hcreate => exact outbox_createDeposit hcreate
    | insertedUnheard hcreate => exact outbox_createDeposit hcreate
    | _ => exact Or.inl rfl
  | _ => exact Or.inl rfl

/-! ### The invariant -/

/-- The credits of the ledger and the credit calls that were carried out are the same, and events
repeat what rows say. -/
structure NotifyingInvariant (deployment : Deployment)
    (c : Config TransfersStore DepositTransactions.Process) : Prop where
  credit : CreditInvariant deployment.settings deployment.chain ⟨c.shared.deposits, c.procs⟩
  entered : ∀ t ∈ c.shared.deposits.accounts.ledgerTransactions, ∀ key,
    t.idempotencyKey = some key → t.type = .onChainDeposit →
      ∃ request ∈ c.shared.credited, request.idempotencyKey = key
  carried : ∀ request ∈ c.shared.credited, ∃ deposit, Stored c.shared.deposits deposit ∧
    request.idempotencyKey = depositKey deposit.txHash ∧
      Entered c.shared.deposits deposit.toDepositTerms
  confirmed : ∀ event, .depositConfirmed event ∈ c.shared.events →
    ∃ deposit, Stored c.shared.deposits deposit ∧ event = confirmedEvent deposit

section Service

variable {c d : Config TransfersStore DepositTransactions.Process} {e : Event TransfersAction}

theorem NotifyingInvariant.next (h : NotifyingInvariant deployment c)
    (hnext : (transfersSystem deployment).next c e = some d) :
    NotifyingInvariant deployment d ∧ Persists c.shared.deposits d.shared.deposits := by
  obtain ⟨store, call, hstep, rfl⟩ := System.next_eq_some.mp hnext
  change transfersStep deployment e.proc c.shared (c.procs e.proc) e.action = _ at hstep
  cases haction : e.action with
  | withdrawal event =>
    rw [haction] at hstep
    cases hstep
    rw [Function.update_eq_self]
    refine ⟨⟨h.credit, h.entered, h.carried, fun event hevent => ?_⟩, Persists.refl _⟩
    rcases List.mem_append.mp hevent with hold | hnew
    · exact h.confirmed event hold
    · cases List.mem_singleton.mp hnew
  | deposit action =>
    rw [haction] at hstep
    obtain ⟨⟨s', call'⟩, hdeposit, heq⟩ := Option.map_eq_some_iff.mp hstep
    cases heq
    have hbooks := h.credit.books
    have hbacked := h.credit.backed e.proc
    have hprocess := step_cases hdeposit
    have hpersists := (step_spec hbooks hbacked hprocess).persists
    have hinner : (depositsSystem deployment.settings deployment.chain).next
        ⟨c.shared.deposits, c.procs⟩ ⟨e.proc, action⟩ =
          some ⟨s', Function.update c.procs e.proc call'⟩ :=
      System.next_eq_some.mpr ⟨s', call', hdeposit, rfl⟩
    refine ⟨⟨creditInvariant_next h.credit hinner, fun t ht key hkey htype => ?_,
      fun request hrequest => ?_, fun event hevent => ?_⟩, hpersists⟩
    · by_cases hold : t ∈ c.shared.deposits.accounts.ledgerTransactions
      · obtain ⟨request, hrequest, hsame⟩ := h.entered t hold key hkey htype
        exact ⟨request, List.mem_append_left _ hrequest, hsame⟩
      · obtain ⟨request, hrequest, hsame⟩ :=
          carriedOut_of_entry hbooks hbacked hdeposit ht hold hkey htype
        refine ⟨request, List.mem_append_right _ ?_, hsame⟩
        rw [hrequest]
        exact List.mem_singleton_self _
    · rcases List.mem_append.mp hrequest with hold | hnew
      · obtain ⟨deposit, hstored, hkey, hentered⟩ := h.carried request hold
        exact ⟨deposit, hpersists.stored _ hstored, hkey, hentered.mono hpersists⟩
      · obtain ⟨deposit, hstored, hkey, hentered⟩ :=
          entry_of_carriedOut hbooks hbacked hdeposit (Option.mem_toList.mp hnew)
        exact ⟨deposit, hpersists.stored _ hstored, hkey, hentered⟩
    · rcases List.mem_append.mp hevent with hold | hnew
      · obtain ⟨deposit, hstored, hsame⟩ := h.confirmed event hold
        exact ⟨deposit, hpersists.stored _ hstored, hsame⟩
      · obtain ⟨other, hother, heq⟩ := List.mem_map.mp hnew
        obtain rfl := TransfersEvent.depositConfirmed.inj heq
        rcases outbox_step hprocess with hsame | ⟨row, hrow, hgrown⟩
        · rw [hsame, List.drop_length] at hother
          exact absurd hother List.not_mem_nil
        · rw [hgrown, List.drop_left] at hother
          obtain rfl := List.mem_singleton.mp hother
          exact ⟨row, stored_of_mem hrow, rfl⟩

theorem notifyingInvariant_initial : NotifyingInvariant deployment
    ⟨⟨DepositTransactions.initial.shared, [], []⟩, DepositTransactions.initial.procs⟩ where
  credit := creditInvariant_initial
  entered _ ht := absurd ht List.not_mem_nil
  carried _ hrequest := absurd hrequest List.not_mem_nil
  confirmed _ hevent := absurd hevent List.not_mem_nil

end Service

/-- The service with its records. -/
structure Notified (deployment : Deployment) (c : NotifyingConfig) : Prop where
  service : NotifyingInvariant deployment (serviceConfig c)
  recorded : Recorded (transfersService deployment) c

theorem Notified.next (h : Notified deployment c)
    (hnext : (notifyingSystem deployment).next c e = some d) : Notified deployment d ∧
      Persists c.shared.service.deposits d.shared.service.deposits := by
  rcases BridgedOutbox.serviceConfig_next hnext with ⟨action, rows, -, hservice⟩ | ⟨-, hsame⟩
  · obtain ⟨hinvariant, hpersists⟩ := h.service.next hservice
    exact ⟨⟨hinvariant, h.recorded.next hnext⟩, hpersists⟩
  · refine ⟨⟨by rw [hsame]; exact h.service, h.recorded.next hnext⟩, ?_⟩
    have hstore : d.shared.service = c.shared.service := congrArg Config.shared hsame
    rw [hstore]
    exact Persists.refl _

theorem notified_initial : Notified deployment initial :=
  ⟨notifyingInvariant_initial, BridgedOutbox.recorded_initial rfl⟩

/-! ### One message -/

theorem terms_of_stored {deposit other : WalletDeposit} (h : Books s) (hstored : Stored s deposit)
    (hother : Stored s other) (hsame : deposit.id = other.id ∨ deposit.txHash = other.txHash) :
    deposit.id = other.id ∧ deposit.toDepositTerms = other.toDepositTerms := by
  obtain ⟨row, hrow, hid, hterms⟩ := hstored
  obtain ⟨row', hrow', hid', hterms'⟩ := hother
  have heq : row = row' := by
    rcases hsame with hsame | hsame
    · exact h.ids.eq hrow hrow' (hid.trans (hsame.trans hid'.symm))
    · have hhash := congrArg DepositTerms.txHash hterms
      exact h.hashes.eq hrow hrow' (hhash.trans (hsame.trans (congrArg _ hterms'.symm)))
  subst heq
  exact ⟨hid.symm.trans hid', hterms.symm.trans hterms'⟩

/-- The message of a confirmed deposit is true exactly when its credit has been carried out. -/
theorem creditedTruly_iff_carriedOut (h : Notified deployment c) {context : Context}
    {row : OutboxRow TransfersEvent} {event : DepositConfirmedEvent}
    (hrow : row ∈ OutboxOrderLaws.arrived c.shared.outbox.store)
    (hevent : row.event = .depositConfirmed event)
    (hm : m ∈ (transfersService deployment).messages context row) :
    CreditedTruly c.shared.service.deposits m ↔
      ∃ request ∈ c.shared.service.credited, request.idempotencyKey = depositKey event.txHash := by
  have hbooks := h.service.credit.books
  have hcommitted : .depositConfirmed event ∈ c.shared.service.events := by
    have hmem := List.mem_map_of_mem (f := OutboxRow.event) (h.recorded.carries.arrived row hrow)
    rw [h.recorded.events] at hmem
    rwa [← hevent]
  obtain ⟨deposit, hstored, rfl⟩ := h.service.confirmed event hcommitted
  obtain ⟨m', hmessages, hchannel, hstatus, hid⟩ :=
    messages_depositConfirmed deployment context hevent
  rw [hmessages] at hm
  obtain rfl := List.mem_singleton.mp hm
  constructor
  · intro htrue
    obtain ⟨other, hother, hid', t, ht, hrecords⟩ := htrue hchannel hstatus
    have hsame : deposit.id = other.id :=
      JsonValues.Json.string.inj (Option.some.inj (hid.symm.trans hid'))
    obtain ⟨-, hterms⟩ := terms_of_stored hbooks hstored hother (Or.inl hsame)
    obtain ⟨request, hrequest, hkey⟩ :=
      h.service.entered t ht _ hrecords.credits.2 hrecords.credits.1
    refine ⟨request, hrequest, hkey.trans ?_⟩
    change depositKey other.toDepositTerms.txHash = depositKey deposit.toDepositTerms.txHash
    rw [hterms]
  · rintro ⟨request, hrequest, hkey⟩ - -
    obtain ⟨other, hother, hkey', hentered⟩ := h.service.carried request hrequest
    have hhash : deposit.txHash = other.txHash := depositKey_injective (hkey.symm.trans hkey')
    obtain ⟨hsame, -⟩ := terms_of_stored hbooks hstored hother (Or.inr hhash)
    exact ⟨other, hother, hsame ▸ hid, hentered⟩

/-! ### Runs -/

/-- All notifications that a deposit is credited are true. -/
def NotificationsTrue (c : NotifyingConfig) : Prop :=
  ∀ x ∈ c.shared.published, CreditedTruly c.shared.service.deposits x.2

theorem NotificationsTrue.next (h : Notified deployment c) (htrue : NotificationsTrue c)
    (hguard : CreditedBefore c e) (hnext : (notifyingSystem deployment).next c e = some d) :
    NotificationsTrue d := by
  obtain ⟨-, hpersists⟩ := h.next hnext
  refine BridgedOutbox.published_next
    (Q := fun (store : TransfersStore) x => CreditedTruly store.deposits x.2) hnext htrue
    (fun x hx => hx.mono hpersists) fun row context sent haction hrow m hm => ?_
  intro hchannel hstatus
  obtain ⟨event, hevent⟩ := event_of_credited (List.mem_of_mem_take hm) hstatus
  have hsent : sent ≠ 0 := by
    rintro rfl
    cases hm
  exact (creditedTruly_iff_carriedOut h hrow hevent (List.mem_of_mem_take hm)).mpr
    (hguard row context sent event haction hsent hevent) hchannel hstatus

theorem creditedBefore_of_true (h : Notified deployment c)
    (hnext : (notifyingSystem deployment).next c e = some d) (htrue : NotificationsTrue d) :
    CreditedBefore c e := by
  intro row context sent event haction hsent hevent
  obtain ⟨s', l', hstep, rfl⟩ := BridgedOutbox.next_cases hnext
  generalize c.procs e.proc = l at hstep
  rw [haction] at hstep
  cases hstep with
  | handled hrow =>
    obtain ⟨m, hmessages, -⟩ := messages_depositConfirmed deployment context hevent
    have hm : m ∈ ((transfersService deployment).messages context row).take sent := by
      obtain ⟨n, rfl⟩ := Nat.exists_eq_succ_of_ne_zero hsent
      rw [hmessages, List.take_succ_cons]
      exact List.mem_cons_self
    exact (creditedTruly_iff_carriedOut h hrow hevent (List.mem_of_mem_take hm)).mp
      (htrue (row, m) (List.mem_append_right _ (List.mem_map_of_mem hm)))

/-- In every run, the notifications that a deposit is credited are true whenever they are
published exactly if every event of a deposit is handled after its credit has been carried
out. -/
theorem notificationsTrue_iff (h : (notifyingSystem deployment).exec initial es = some c) :
    (∀ t ∈ (notifyingSystem deployment).transitions initial es, NotificationsTrue t.after) ↔
      ∀ t ∈ (notifyingSystem deployment).transitions initial es,
        CreditedBefore t.before t.event := by
  constructor
  · intro htrue t ht
    have hrun : (notifyingSystem deployment).Run (fun _ _ => True) initial es c :=
      .of_transitions h fun _ _ => trivial
    obtain ⟨hnotified, -, hnext⟩ := hrun.transitions_invariant notified_initial
      (fun _ _ _ hc _ hnext => (hc.next hnext).1) t ht
    exact creditedBefore_of_true hnotified hnext (htrue t ht)
  · intro hguard t ht
    have hrun : (notifyingSystem deployment).Run CreditedBefore initial es c :=
      .of_transitions h hguard
    obtain ⟨⟨hnotified, htrue⟩, hbefore, hnext⟩ := hrun.transitions_invariant
      (I := fun c => Notified deployment c ∧ NotificationsTrue c)
      ⟨notified_initial, fun _ hx => absurd hx List.not_mem_nil⟩
      (fun _ _ _ hc hguard hnext => ⟨(hc.1.next hnext).1, hc.2.next hc.1 hguard hnext⟩) t ht
    exact htrue.next hnotified hbefore hnext

/-! ### Two runs -/

def someDeployment : Deployment := ⟨noConfirmations, oneDeposit, "test", fun _ => "0"⟩

def someContext : Context := ⟨"event", 0, "correlation", none, none, 0, "0", none⟩

def etherEvent : TransfersEvent := .depositConfirmed (confirmedEvent etherRow)

def eventRow : OutboxRow TransfersEvent := ⟨"outbox", etherEvent, .pending, 0⟩

/-- A step of the deposits system that commits no event. -/
def depositing (action : DepositTransactions.Action) : Event TransferNotifications.Action :=
  ⟨0, .serve (.deposit action) []⟩

/-- The deposit is stored with its event, and its credit call is about to be made. -/
def confirming : List (Event TransferNotifications.Action) :=
  [depositing (.processDepositEvent etherDeposit), depositing .statement,
    ⟨0, .serve (.deposit (.insert "row")) [eventRow]⟩]

/-- A worker sends the event, and the bridge handles it. -/
def notifying : List (Event TransferNotifications.Action) :=
  [⟨1, .relay .processBatch⟩, ⟨1, .relay (.fetchPendingBatch [eventRow])⟩,
    ⟨1, .relay (.sendBatch ⟨[eventRow], true⟩)⟩, ⟨2, .handleMessage eventRow someContext 1⟩]

/-- The credit is carried out before the event is relayed. -/
def creditedFirst : List (Event TransferNotifications.Action) :=
  confirming ++ [depositing (.call (.answered "account")), depositing .statement] ++ notifying

/-- The credit call does not arrive. -/
def creditLost : List (Event TransferNotifications.Action) :=
  confirming ++ [depositing (.call .unanswered)] ++ notifying

def saysCredited (m : PubSubMsg) : Bool :=
  JsonValues.strictlyEqual (m.message.get "channel") (some (.string WsChannels.userTransfers)) &&
    JsonValues.strictlyEqual (m.message.get "status") (some (.string "CREDITED"))

/-- The condition, checked on one transition. -/
def checkCredited (t : System.Transition Shared
    (BridgedOutbox.Process DepositTransactions.Process TransfersEvent)
    TransferNotifications.Action) : Bool :=
  match t.event.action with
  | .handleMessage row _ _ =>
    match row.event with
    | .depositConfirmed event => t.before.shared.service.credited.any fun request =>
        request.idempotencyKey = depositKey event.txHash
    | .withdrawal _ => true
  | _ => true

theorem creditedFirst_executes :
    ((notifyingSystem someDeployment).exec initial creditedFirst).map
      (fun c => c.shared.published.map fun x => saysCredited x.2) = some [true] := by
  decide +kernel

theorem creditLost_executes :
    ((notifyingSystem someDeployment).exec initial creditLost).map
      (fun c => (c.shared.published.map fun x => saysCredited x.2,
        c.shared.service.deposits.accounts.ledgerTransactions)) = some ([true], []) := by
  decide +kernel

theorem notificationsTrue_creditedFirst : ∃ c,
    (notifyingSystem someDeployment).exec initial creditedFirst = some c ∧
      c.shared.published.map (fun x => saysCredited x.2) = [true] ∧
        ∀ t ∈ (notifyingSystem someDeployment).transitions initial creditedFirst,
          NotificationsTrue t.after := by
  obtain ⟨c, hexec, hpublished⟩ := Option.map_eq_some_iff.mp creditedFirst_executes
  have hall : ((notifyingSystem someDeployment).transitions initial creditedFirst).all
      checkCredited = true := by decide +kernel
  refine ⟨c, hexec, hpublished, (notificationsTrue_iff hexec).mpr fun t ht => ?_⟩
  intro row context sent event haction _ hevent
  have hcheck := List.all_eq_true.mp hall t ht
  rw [checkCredited, haction] at hcheck
  simpa [hevent] using hcheck

theorem not_notificationsTrue_creditLost : ¬∀ deployment es c,
    (notifyingSystem deployment).exec initial es = some c → NotificationsTrue c := by
  intro h
  obtain ⟨c, hexec, hresult⟩ := Option.map_eq_some_iff.mp creditLost_executes
  obtain ⟨hpublished, hledger⟩ := Prod.mk.inj hresult
  obtain ⟨x, hx, hsays⟩ : ∃ x ∈ c.shared.published, saysCredited x.2 = true :=
    List.mem_map.mp (hpublished ▸ List.mem_singleton_self true)
  obtain ⟨hchannel, hstatus⟩ := Bool.and_eq_true_iff.mp hsays
  obtain ⟨deposit, -, -, t, ht, -⟩ := h _ _ c hexec x hx
    (JsonValues.eq_of_strictlyEqual_string hchannel) (JsonValues.eq_of_strictlyEqual_string hstatus)
  rw [hledger] at ht
  exact absurd ht List.not_mem_nil

end EtherTrade.DepositNotificationLaws
