import EtherTrade.SequentialRequests

/-!
# Isolation of users by their idempotency keys

A replay is recognised by the key, the amount, the currency and the type; the user is
not compared. What a user gets is independent of the calls of others, and a success
means that the user's own account was changed, as long as no other user calls with one
of the user's keys.
-/

namespace EtherTrade.IdempotencyKeyIsolation

open DecimalNumbers KeyedRows AccountsSchema AccountsDbInvariants
open BalanceMutations BalanceMutationCorrectness TradeSettlement TradeSettlementCorrectness
open AccountsDbHistory UnwindingRelations SequentialRequests

variable {db db' : AccountsDb} {U newId newId' : Uuid} {mine : String → Prop}
  {op : BalanceOperation} {params : BalanceParams}

/-- What the replay check compares. -/
def replayData (t : LedgerTransaction) : ℤ × Currency × LedgerTransactionType :=
  (t.amount, t.currency, t.type)

/-- Two databases that user `U`, whose keys are `mine`, cannot tell apart. -/
structure Indistinguishable (U : Uuid) (mine : String → Prop) (db db' : AccountsDb) : Prop where
  wellFormed : WellFormed db
  wellFormed' : WellFormed db'
  balances : ∀ currency, accountBalances db U currency = accountBalances db' U currency
  ledger : ∀ key, mine key → (db.findLedgerByIdempotencyKey key).map replayData =
    (db'.findLedgerByIdempotencyKey key).map replayData
  events : ∀ eventId, db.isEventProcessed eventId = db'.isEventProcessed eventId

theorem Indistinguishable.refl (h : WellFormed db) : Indistinguishable U mine db db :=
  ⟨h, h, fun _ => rfl, fun _ _ => rfl, fun _ => rfl⟩

theorem Indistinguishable.symm (h : Indistinguishable U mine db db') :
    Indistinguishable U mine db' db :=
  ⟨h.wellFormed', h.wellFormed, fun c => (h.balances c).symm, fun k hk => (h.ledger k hk).symm,
    fun e => (h.events e).symm⟩

/-! ### Balance calls -/

theorem isEventProcessed_commit {account : Account} {prepared : AccountsDb}
    (h : Prepared op.mutation params db account prepared) (eventId : Uuid) :
    (op.mutation.commit params account prepared).isEventProcessed eventId =
      db.isEventProcessed eventId := by
  have hevents : (op.mutation.commit params account prepared).processedEvents =
      db.processedEvents := h.processedEvents_eq
  simp [AccountsDb.isEventProcessed, AccountsDb.findProcessedEvent, hevents]

/-- Mutations with the same parameters, committed on both sides, keep the databases alike. -/
theorem indistinguishable_commit {account account' : Account} {prepared prepared' : AccountsDb}
    (hR : Indistinguishable U mine db db')
    (hkey : db.findLedgerByIdempotencyKey params.idempotencyKey = none)
    (hkey' : db'.findLedgerByIdempotencyKey params.idempotencyKey = none)
    (h : Prepared op.mutation params db account prepared)
    (h' : Prepared op.mutation params db' account' prepared') :
    Indistinguishable U mine (op.mutation.commit params account prepared)
      (op.mutation.commit params account' prepared') := by
  refine ⟨wellFormed_commit hkey h hR.wellFormed, wellFormed_commit hkey' h' hR.wellFormed',
    fun currency => ?_, fun key hmine => ?_, fun eventId => ?_⟩
  · rw [accountBalances_commit hR.wellFormed h, accountBalances_commit hR.wellFormed' h',
      hR.balances]
  · rw [findLedger_commit, findLedger_commit, h.findLedger_eq, h'.findLedger_eq]
    by_cases hk : params.idempotencyKey = key
    · subst hk
      simp [hkey, hkey', replayData, BalanceMutation.ledgerTransaction]
    · simpa [hk] using hR.ledger key hmine
  · rw [isEventProcessed_commit h, isEventProcessed_commit h', hR.events]

/-- A mutation of another user, under a key that is not one of `mine`, does not show. -/
theorem indistinguishable_hidden {result : Option BalanceMutationResult} {next : AccountsDb}
    (hR : Indistinguishable U mine db db') (huser : params.userId ≠ U)
    (hmine : ¬mine params.idempotencyKey)
    (h : mutateBalance op.mutation newId params db = (next, result)) :
    Indistinguishable U mine next db' := by
  rcases mutateBalance_cases h with ⟨rfl, -⟩ | ⟨account, prepared, hkey, hprepared, rfl, -⟩
  · exact hR
  · refine ⟨wellFormed_commit hkey hprepared hR.wellFormed, hR.wellFormed', fun currency => ?_,
      fun key hk => ?_, fun eventId => ?_⟩
    · rw [accountBalances_commit hR.wellFormed hprepared, if_neg, hR.balances]
      intro heq
      exact huser (Prod.mk.inj heq).1
    · have hne : params.idempotencyKey ≠ key := by
        rintro rfl
        exact hmine hk
      rw [findLedger_commit, hprepared.findLedger_eq, if_neg hne, Option.or_none,
        hR.ledger key hk]
    · rw [isEventProcessed_commit hprepared, hR.events]

/-- An earlier row under the key settles a call, by its replay data alone. -/
theorem mutateBalance_of_used (op : BalanceOperation) (newId : Uuid) {t : LedgerTransaction}
    (hdb : WellFormed db)
    (ht : db.findLedgerByIdempotencyKey params.idempotencyKey = some t) :
    (mutateBalance op.mutation newId params db).1 = db ∧
      (mutateBalance op.mutation newId params db).2.map status =
        some (if replayData t = (params.amount.units, params.currency, op.mutation.expectedType) then
          .idempotentReplay else .idempotencyPayloadMismatch) := by
  obtain ⟨a, ha, -⟩ := hdb.ledgerOwners t (lookup_mem ht).1
  simp only [mutateBalance, resolveIdempotencyReplay, checkReplay, ht, replayData, Prod.mk.injEq]
  by_cases h : t.amount = params.amount.units ∧ t.currency = params.currency ∧
      t.type = op.mutation.expectedType
  · simp [h, readReplayedAccount, ha, status]
  · simp [h, status]

/-- What a guard refuses depends on the balances of the account alone. -/
theorem refusal_congr (op : BalanceOperation) {a b : Account} (h : a.balances = b.balances)
    (amount : Amount) :
    op.mutation.refusal a amount = op.mutation.refusal b amount := by
  obtain ⟨havailable, hlocked⟩ := Prod.mk.inj h
  cases op <;>
    simp [BalanceOperation.mutation, depositMutation, lockMutation, unlockMutation,
      creditDepositMutation, debitWithdrawalMutation, havailable, hlocked]

/-- A call of `U` has the same status on both sides and keeps the databases alike. -/
theorem indistinguishable_call (hR : Indistinguishable U mine db db') (huser : params.userId = U)
    (hmine : mine params.idempotencyKey) (hid : db.findById newId = none)
    (hid' : db'.findById newId' = none) :
    (mutateBalance op.mutation newId params db).2.map status =
        (mutateBalance op.mutation newId' params db').2.map status ∧
      Indistinguishable U mine (mutateBalance op.mutation newId params db).1
        (mutateBalance op.mutation newId' params db').1 := by
  have hledger := hR.ledger _ hmine
  cases ht : db.findLedgerByIdempotencyKey params.idempotencyKey with
  | some t =>
    rw [ht, Option.map_some, eq_comm, Option.map_eq_some_iff] at hledger
    obtain ⟨t', ht', hdata⟩ := hledger
    obtain ⟨hdb, hstatus⟩ := mutateBalance_of_used op newId hR.wellFormed ht
    obtain ⟨hdb', hstatus'⟩ := mutateBalance_of_used op newId' hR.wellFormed' ht'
    rw [hdb, hdb', hstatus, hstatus', hdata]
    exact ⟨rfl, hR⟩
  | none =>
    rw [ht, Option.map_none, eq_comm, Option.map_eq_none_iff] at hledger
    have hreplay := (resolveIdempotencyReplay_eq_none op.mutation.expectedType).mpr ht
    have hreplay' := (resolveIdempotencyReplay_eq_none op.mutation.expectedType).mpr hledger
    have hbalances := hR.balances params.currency
    rw [← huser] at hbalances
    simp only [accountBalances] at hbalances
    cases hfound : db.findByUserAndCurrency params.userId params.currency with
    | some a =>
      rw [hfound, Option.map_some, eq_comm, Option.map_eq_some_iff] at hbalances
      obtain ⟨a', hfound', hsame⟩ := hbalances
      have hrefusal := refusal_congr op hsame params.amount
      cases hguard : op.mutation.refusal a params.amount with
      | some refused =>
        rw [hguard] at hrefusal
        simpa [mutateBalance, hreplay, hreplay', hfound, hfound', hguard, hrefusal] using hR
      | none =>
        rw [hguard] at hrefusal
        have hcommit := indistinguishable_commit hR ht hledger (.found hfound hguard)
          (.found hfound' hrefusal)
        simpa [mutateBalance, hreplay, hreplay', hfound, hfound', hguard, hrefusal, status]
          using hcommit
    | none =>
      rw [hfound, Option.map_none, eq_comm, Option.map_eq_none_iff] at hbalances
      by_cases hopens : op.mutation.opensAccount = true
      · have hcommit := indistinguishable_commit hR ht hledger (.opened hopens hfound hid)
          (.opened hopens hbalances hid')
        simpa [mutateBalance, hreplay, hreplay', hfound, hbalances, hopens, hid, hid', status]
          using hcommit
      · simpa [mutateBalance, hreplay, hreplay', hfound, hbalances, hopens, status] using hR

/-! ### Deliveries -/

theorem indistinguishable_opened {trade : TradeExecutedEvent} {opened opened' : AccountsDb}
    {ids ids' : Participant → Uuid} (hR : Indistinguishable U mine db db')
    (h : ParticipantsOpened trade db opened ids) (h' : ParticipantsOpened trade db' opened' ids') :
    Indistinguishable U mine opened opened' := by
  refine ⟨h.wellFormed, h'.wellFormed, fun currency => ?_, fun key hmine => ?_, fun eventId => ?_⟩
  · rw [h.balances, h'.balances, hR.balances]
  · simpa [AccountsDb.findLedgerByIdempotencyKey, h.ledger, h'.ledger] using hR.ledger key hmine
  · simpa [AccountsDb.isEventProcessed, AccountsDb.findProcessedEvent, h.events, h'.events]
      using hR.events eventId

theorem indistinguishable_settled {envelope : DomainEventEnvelope} {trade : TradeExecutedEvent}
    {ids ids' : Participant → Uuid} {writes writes' : SettlementWrites} {f : Figures}
    (hR : Indistinguishable U mine db db') (hs : Settlement envelope trade ids writes db)
    (hs' : Settlement envelope trade ids' writes' db') :
    Indistinguishable U mine (settledDb envelope trade ids f db)
      (settledDb envelope trade ids' f db') := by
  refine ⟨wellFormed_settledDb hs hR.wellFormed, wellFormed_settledDb hs' hR.wellFormed',
    fun currency => ?_, fun key hmine => ?_, fun eventId => ?_⟩
  · rw [accountBalances_settledDb hR.wellFormed hs, accountBalances_settledDb hR.wellFormed' hs',
      hR.balances]
  · rw [findLedger_settledDb, findLedger_settledDb, hR.ledger key hmine]
  · rw [isEventProcessed_settledDb, isEventProcessed_settledDb, hR.events]

/-- The same message delivered on both sides keeps the databases alike. -/
theorem indistinguishable_delivery {payload : KafkaBatchConsumerPayload}
    {newIds newIds' : Participant → Uuid} (hR : Indistinguishable U mine db db')
    (hfresh : (Request.deliver payload newIds).Fresh db)
    (hfresh' : (Request.deliver payload newIds').Fresh db') :
    Indistinguishable U mine (handleMessage payload newIds db).1
      (handleMessage payload newIds' db').1 := by
  have h := handleMessage_spec hR.wellFormed hfresh
  have h' := handleMessage_spec hR.wellFormed' hfresh'
  cases haccept : acceptMessage payload with
  | inl outcome =>
    simp only [haccept] at h h'
    rw [h, h']
    exact hR
  | inr accepted =>
    obtain ⟨envelope, trade⟩ := accepted
    simp only [haccept] at h h'
    obtain ⟨opened, ids, hopened, h⟩ := h
    obtain ⟨opened', ids', hopened', h'⟩ := h'
    have hR' := indistinguishable_opened hR hopened hopened'
    rw [← hR.events] at h'
    by_cases hsettles : db.isEventProcessed envelope.eventId = false ∧ readable trade = true
    · rw [if_pos hsettles] at h h'
      obtain ⟨f, writes, hf, hs, heq⟩ := h
      obtain ⟨f', writes', hf', hs', heq'⟩ := h'
      obtain rfl : f = f' := Option.some.inj (hf.symm.trans hf')
      rw [heq, heq']
      exact indistinguishable_settled hR' hs hs'
    · rw [if_neg hsettles] at h h'
      rw [h, h']
      exact hR'

/-! ### Runs of requests -/

/-- What user `U` can tell of a request: its own calls and all deliveries, without the ids. -/
def visibleTo (U : Uuid) :
    Request → Option ((BalanceOperation × BalanceParams) ⊕ KafkaBatchConsumerPayload)
  | .call op _ params => if params.userId = U then some (.inl (op, params)) else none
  | .deliver payload _ => some (.inr payload)

/-- A call uses a key of `U` exactly when it is a call of `U`. -/
def Allowed (U : Uuid) (mine : String → Prop) : Request → Prop
  | .call _ _ params => params.userId = U ↔ mine params.idempotencyKey
  | .deliver _ _ => True

theorem unwinding (U : Uuid) (mine : String → Prop) :
    accountsMachine.Unwinding (visibleTo U) (fun db => accountBalances db U) (Allowed U mine)
      (Indistinguishable U mine) where
  symm h := h.symm
  observe_eq h := funext h.balances
  hidden := by
    intro s t s' r b hR hallowed hview hstep
    simp only [accountsMachine] at hstep
    split at hstep
    · cases r with
      | deliver payload newIds => cases hview
      | call op newId params =>
        obtain ⟨rfl, rfl⟩ := Prod.mk.inj (Option.some.inj hstep)
        have huser : params.userId ≠ U := by
          intro hu
          simp [visibleTo, hu] at hview
        exact indistinguishable_hidden hR huser (fun hm => huser (hallowed.mpr hm)) rfl
    · cases hstep
  visible := by
    intro s t s' t' r r' b b' g hR hallowed hallowed' hview hview' hstep hstep'
    simp only [accountsMachine] at hstep hstep'
    split at hstep
    · next hfresh =>
      split at hstep'
      · next hfresh' =>
        cases r with
        | deliver payload newIds =>
          cases r' with
          | call op' newId' params' =>
            simp only [visibleTo, Option.some.injEq] at hview hview'
            split at hview'
            · rw [← hview] at hview'
              cases hview'
            · cases hview'
          | deliver payload' newIds' =>
            obtain ⟨rfl, rfl⟩ := Prod.mk.inj (Option.some.inj hstep)
            obtain ⟨rfl, rfl⟩ := Prod.mk.inj (Option.some.inj hstep')
            obtain rfl : payload = payload' :=
              Sum.inr.inj (Option.some.inj (hview.trans hview'.symm))
            exact ⟨rfl, indistinguishable_delivery hR hfresh hfresh'⟩
        | call op newId params =>
          cases r' with
          | deliver payload' newIds' =>
            simp only [visibleTo, Option.some.injEq] at hview hview'
            split at hview
            · rw [← hview'] at hview
              cases hview
            · cases hview
          | call op' newId' params' =>
            obtain ⟨rfl, rfl⟩ := Prod.mk.inj (Option.some.inj hstep)
            obtain ⟨rfl, rfl⟩ := Prod.mk.inj (Option.some.inj hstep')
            simp only [visibleTo] at hview hview'
            split at hview
            · next huser =>
              split at hview'
              · rw [← hview] at hview'
                obtain ⟨rfl, rfl⟩ := Prod.mk.inj (Sum.inl.inj (Option.some.inj hview'))
                exact indistinguishable_call hR huser (hallowed.mp huser) hfresh hfresh'
              · cases hview'
            · cases hview
      · cases hstep'
    · cases hstep

/-- The parameters of the balance calls in a run. -/
def callParams (rs : List Request) : List BalanceParams :=
  rs.filterMap fun
    | .call _ _ params => some params
    | .deliver _ _ => none

/-- No key of a call of `U` is used in a call of another user. -/
def KeysPrivate (U : Uuid) (rs : List Request) : Prop :=
  ∀ mine ∈ callParams rs, ∀ other ∈ callParams rs, mine.userId = U → other.userId ≠ U →
    mine.idempotencyKey ≠ other.idempotencyKey

/-- The ledger holds exactly one row under the key of the call, and it records the change
that the call asks for on the account of its user. -/
def AppliedOnce (op : BalanceOperation) (params : BalanceParams) (db : AccountsDb) : Prop :=
  ∃ t account, db.ledgerTransactions.filter
      (fun u => u.idempotencyKey = some params.idempotencyKey) = [t] ∧
    db.findById t.accountId = some account ∧
    account.owner = (params.userId, params.currency) ∧ t.type = op.mutation.expectedType ∧
    t.amount = params.amount.units ∧ t.change = op.mutation.change params.amount

/-- Isolation of `U` after the requests `rs`, among the runs in `P`: a call of `U` that
succeeds has been applied exactly once, and any run in which `U` cannot tell a difference
gives `U` the same status codes and balances. -/
structure Isolated (P : List Request → Prop) (U : Uuid) (rs : List Request) (db : AccountsDb) :
    Prop where
  applied : ∀ op newId params db' code, params.userId = U → P (rs ++ [.call op newId params]) →
    accountsMachine.step db (.call op newId params) = some (db', some code) →
      code = .ok ∨ code = .idempotentReplay → AppliedOnce op params db'
  independent : ∀ rs' seen seen', P rs' →
    rs'.filterMap (visibleTo U) = rs.filterMap (visibleTo U) →
    accountsMachine.trace (visibleTo U) (fun db => accountBalances db U) .empty rs = some seen →
    accountsMachine.trace (visibleTo U) (fun db => accountBalances db U) .empty rs' = some seen' →
      seen = seen'

/-- Every keyed ledger row was written by a call among the requests. -/
def WrittenBy (rs : List Request) (db : AccountsDb) : Prop :=
  ∀ t ∈ db.ledgerTransactions, ∀ key, t.idempotencyKey = some key →
    ∃ op newId params account, .call op newId params ∈ rs ∧
      account.owner = (params.userId, params.currency) ∧
      t = op.mutation.ledgerTransaction params account

theorem step_spec {r : Request} {answer : Option BalanceMutationStatus} {rs : List Request}
    (hdb : WellFormed db) (hwritten : WrittenBy rs db) (hr : r ∈ rs)
    (h : accountsMachine.step db r = some (db', answer)) : WellFormed db' ∧ WrittenBy rs db' := by
  obtain ⟨hdb', ts, hledger, hts⟩ := accountsMachine_ledger hdb h
  refine ⟨hdb', fun t ht key htk => ?_⟩
  rw [hledger] at ht
  rcases List.mem_append.mp ht with ht | ht
  · exact hwritten t ht key htk
  · obtain ⟨op, newId, params, account, rfl, howner, hrow⟩ := hts t ht key htk
    exact ⟨op, newId, params, account, hr, howner, hrow⟩

theorem exec_spec {rs all : List Request} (hdb : WellFormed db) (hwritten : WrittenBy all db)
    (hrs : ∀ r ∈ rs, r ∈ all) (h : accountsMachine.exec db rs = some db') :
    WellFormed db' ∧ WrittenBy all db' := by
  induction rs generalizing db with
  | nil =>
    obtain rfl := Option.some.inj h
    exact ⟨hdb, hwritten⟩
  | cons r rs ih =>
    simp only [Machine.exec, Option.bind_eq_some_iff] at h
    obtain ⟨⟨next, answer⟩, hstep, hrest⟩ := h
    obtain ⟨hnext, hwritten'⟩ := step_spec hdb hwritten (hrs r List.mem_cons_self) hstep
    exact ih hnext hwritten' (fun x hx => hrs x (List.mem_cons_of_mem _ hx)) hrest

theorem expectedType_injective {op op' : BalanceOperation}
    (h : op.mutation.expectedType = op'.mutation.expectedType) : op = op' := by
  cases op <;> cases op' <;> first | rfl | cases h

/-- A replay is reported only for a row with the same replay data. -/
theorem mutateBalance_replay
    (h : (mutateBalance op.mutation newId params db).2.map status = some .idempotentReplay)
    (hdb : WellFormed db) : (mutateBalance op.mutation newId params db).1 = db ∧
      ∃ t, db.findLedgerByIdempotencyKey params.idempotencyKey = some t ∧
        replayData t = (params.amount.units, params.currency, op.mutation.expectedType) := by
  cases ht : db.findLedgerByIdempotencyKey params.idempotencyKey with
  | some t =>
    obtain ⟨hsame, hstatus⟩ := mutateBalance_of_used op newId hdb ht
    refine ⟨hsame, t, rfl, ?_⟩
    rw [hstatus] at h
    by_contra hne
    rw [if_neg hne] at h
    cases h
  | none =>
    have hreplay := (resolveIdempotencyReplay_eq_none op.mutation.expectedType).mpr ht
    have hrefusal : ∀ a r, op.mutation.refusal a params.amount = some r →
        status r ≠ .idempotentReplay := by
      intro a r hr
      rcases refusal_eq_some hr with rfl | rfl <;> simp [status]
    simp only [mutateBalance, hreplay] at h
    split at h
    · split at h
      · next hr => exact absurd (Option.some.inj h) (hrefusal _ _ hr)
      · cases h
    · split at h
      · split at h <;> cases h
      · cases h

/-- A success has been applied exactly once, to an account of the caller. -/
theorem appliedOnce_of_success {rs : List Request} {code : BalanceMutationStatus}
    (hexec : accountsMachine.exec .empty rs = some db)
    (hprivate : KeysPrivate params.userId (rs ++ [.call op newId params]))
    (h : accountsMachine.step db (.call op newId params) = some (db', some code))
    (hcode : code = .ok ∨ code = .idempotentReplay) : AppliedOnce op params db' := by
  have hempty : WrittenBy rs .empty := by simp [WrittenBy, AccountsDb.empty]
  obtain ⟨hdb, hwritten⟩ := exec_spec wellFormed_empty hempty (fun _ hr => hr) hexec
  simp only [accountsMachine] at h
  split at h
  · obtain ⟨hnext, hanswer⟩ := Prod.mk.inj (Option.some.inj h)
    rcases hcode with rfl | rfl
    · obtain ⟨result, hresult, hstatus⟩ := Option.map_eq_some_iff.mp hanswer
      rcases mutateBalance_cases (Prod.ext hnext hresult :
          mutateBalance op.mutation newId params db = (db', some result)) with
        ⟨-, hne⟩ | ⟨account, prepared, hkey, hprepared, rfl, -⟩
      · cases result <;> simp_all [status]
      · have hwf := wellFormed_commit hkey hprepared hdb
        have hmem : op.mutation.ledgerTransaction params (op.mutation.updatedAccount params account) ∈
            (op.mutation.commit params account prepared).ledgerTransactions :=
          List.mem_append_right _ (List.mem_singleton.mpr rfl)
        obtain ⟨a, ha, howner⟩ := hwf.ledgerOwners _ hmem
        exact ⟨_, a, hwf.filter_idempotencyKey hmem rfl, ha, howner, rfl, rfl, rfl⟩
    · obtain ⟨hsame, t, ht, hdata⟩ := mutateBalance_replay hanswer hdb
      obtain rfl : db' = db := hnext.symm.trans hsame
      obtain ⟨hmem, hkey⟩ := lookup_mem ht
      obtain ⟨op', newId', params', account, hcall, -, rfl⟩ := hwritten t hmem _ hkey
      simp only [replayData, Prod.mk.injEq] at hdata
      obtain ⟨hamount, hcurrency, htype⟩ := hdata
      obtain rfl : op' = op := expectedType_injective htype
      have huser : params'.userId = params.userId := by
        by_contra hne
        refine hprivate params ?_ params' ?_ rfl hne (Option.some.inj hkey).symm
        · simp [callParams]
        · exact List.mem_filterMap.mpr ⟨_, List.mem_append_left _ hcall, rfl⟩
      obtain ⟨a, ha, howner⟩ := hdb.ledgerOwners _ hmem
      refine ⟨_, a, hdb.filter_idempotencyKey hmem hkey, ha, ?_, rfl, hamount, ?_⟩
      · rw [howner]
        exact Prod.ext huser hcurrency
      · have hsame : params'.amount = params.amount := by
          cases hp : params'.amount
          cases hq : params.amount
          simp_all [BalanceMutation.ledgerTransaction]
        simp [BalanceMutation.ledgerTransaction, LedgerTransaction.change, hsame]
  · cases h

/-- The calls of `U` in a run are the calls that `U` can tell. -/
theorem mem_callParams {U : Uuid} {rs : List Request} (huser : params.userId = U) :
    params ∈ callParams rs ↔ ∃ op, Sum.inl (op, params) ∈ rs.filterMap (visibleTo U) := by
  simp only [callParams, List.mem_filterMap]
  constructor
  · rintro ⟨r, hr, hparams⟩
    cases r with
    | deliver => cases hparams
    | call op newId params' =>
      obtain rfl := Option.some.inj hparams
      exact ⟨op, _, hr, by simp [visibleTo, huser]⟩
  · rintro ⟨op, r, hr, hview⟩
    cases r with
    | deliver => cases hview
    | call op' newId params' =>
      simp only [visibleTo] at hview
      split at hview
      · obtain ⟨-, rfl⟩ := Prod.mk.inj (Sum.inl.inj (Option.some.inj hview))
        exact ⟨_, hr, rfl⟩
      · cases hview

/-- As long as no other user calls with a key of `U`, every success of `U` has been applied
exactly once to an account of `U`, and the calls of others do not show in the status codes
and balances of `U`. -/
theorem isolated_of_keysPrivate (U : Uuid) (rs : List Request)
    (hexec : accountsMachine.exec .empty rs = some db) (hprivate : KeysPrivate U rs) :
    Isolated (KeysPrivate U) U rs db where
  applied := by
    rintro op newId params db' code rfl hkeys hstep hcode
    exact appliedOnce_of_success hexec hkeys hstep hcode
  independent := by
    intro rs' seen seen' hprivate' hview htrace htrace'
    have hcalls : ∀ {params}, params.userId = U →
        (params ∈ callParams rs' ↔ params ∈ callParams rs) := by
      intro params huser
      rw [mem_callParams huser, mem_callParams huser, hview]
    have hallowed : ∀ {xs : List Request}, KeysPrivate U xs →
        (∀ {params}, params.userId = U → (params ∈ callParams xs ↔ params ∈ callParams rs)) →
        ∀ r ∈ xs, Allowed U (fun key => ∃ mine ∈ callParams rs, mine.userId = U ∧
          mine.idempotencyKey = key) r := by
      intro xs hxs hsame r hr
      cases r with
      | deliver => trivial
      | call op newId params =>
        have hmem : params ∈ callParams xs := List.mem_filterMap.mpr ⟨_, hr, rfl⟩
        constructor
        · intro huser
          exact ⟨params, (hsame huser).mp hmem, huser, rfl⟩
        · rintro ⟨mine, hmine, huser, hkey⟩
          by_contra hne
          exact hxs mine ((hsame huser).mpr hmine) params hmem huser hne hkey
    exact (unwinding U _).trace_eq (.refl wellFormed_empty)
      (hallowed hprivate fun _ => Iff.rfl) (hallowed hprivate' hcalls) hview.symm htrace htrace'

def deposited (userId key : String) (newId : Uuid) : Request :=
  .call .deposit newId ⟨userId, .usdt, .coins 1, key, none⟩

def locked (userId key : String) : Request :=
  .call .lock "unused" ⟨userId, .usdt, .coins 1, key, none⟩

/-- Two users lock under keys of their own. -/
def privateKeys : List Request :=
  [deposited "mallory" "d1" "a", locked "mallory" "lock:m", deposited "alice" "d2" "b",
    locked "alice" "lock:k"]

theorem privateKeys_executes : (accountsMachine.exec .empty privateKeys).isSome = true := by
  decide

theorem isolated_privateKeys : Isolated (KeysPrivate "alice") "alice" privateKeys
    ((accountsMachine.exec .empty privateKeys).get privateKeys_executes) :=
  isolated_of_keysPrivate "alice" privateKeys (Option.some_get privateKeys_executes).symm
    (by unfold KeysPrivate; decide)

/-- A user has locked under the key that `alice` will use. -/
def sharedKey : List Request :=
  [deposited "mallory" "d1" "a", locked "mallory" "lock:k", deposited "alice" "d2" "b"]

theorem sharedKey_executes : (accountsMachine.exec .empty sharedKey).isSome = true := by
  decide

/-- A second user who calls with a key of another is told that the call is a replay,
although nothing of the second user's was locked. -/
theorem not_isolated_sharedKey : ¬∀ U rs db, accountsMachine.exec .empty rs = some db →
    Isolated (fun _ => True) U rs db := by
  intro h
  let db := (accountsMachine.exec .empty sharedKey).get sharedKey_executes
  have hisolated := h "alice" sharedKey db (Option.some_get sharedKey_executes).symm
  have hreplay : accountsMachine.step db (locked "alice" "lock:k") =
      some (db, some .idempotentReplay) := by decide
  obtain ⟨t, a, hfilter, ha, howner, -⟩ := hisolated.applied .lock "unused" _ db
    .idempotentReplay rfl trivial hreplay (Or.inr rfl)
  have hrow : db.ledgerTransactions.filter (fun u => u.idempotencyKey = some "lock:k") =
      [⟨"a", "mallory", .usdt, .lock, 100000000, -100000000, 100000000, 0, 100000000,
        some "lock:k", none⟩] := by decide
  have haccount : db.findById "a" = some ⟨"a", "mallory", .usdt, 0, 100000000⟩ := by
    decide
  obtain rfl := (List.cons.inj (hfilter.symm.trans hrow)).1
  obtain rfl := Option.some.inj (ha.symm.trans haccount)
  exact absurd howner (by decide)

end EtherTrade.IdempotencyKeyIsolation
